import FrontEnd.Proofs.Grammar.Derivation
import FrontEnd.Proofs.Token.Layout

/-!
# Grammatical trees

`Entry.grammatical e n` decides by the shape of the tree alone whether `n` can be read as entry `e`: names are
identifiers, numbers are within the default limit, operators are known, and only the right operand of a binary
expression may be an expression itself. A name may be `true` or `false` wherever no truth value could stand.

**`Entry.derivable_iff_grammatical`**: these are the trees that some tokens of the default lexicon derive.
-/

namespace FrontEnd

def unarySigns : List String := ["-", "--", "++"]

def comparisonSigns : List String := ["<", "<=", ">", ">=", "="]

def arithmeticSigns : List String := ["+", "-", "*", "/"]

namespace Node

def isIdentifier : Node → Bool
  | symbol name _ => isName name.toList
  | _ => false

def isNumeral : Node → Bool
  | numeral v _ => 0 ≤ v && v ≤ maxNumeral
  | _ => false

def isTruth : Node → Bool
  | truth .. => true
  | _ => false

/-- As an operand, a symbol does not have the name of a truth value. -/
def isLiteral : Node → Bool
  | symbol name _ => isName name.toList && name != "true" && name != "false"
  | n => n.isNumeral || n.isTruth

def isUnary : Node → Bool
  | unary op x _ => unarySigns.contains op && x.isLiteral
  | _ => false

def isComparison : Node → Bool
  | comparison x op y _ => x.isNumeral && comparisonSigns.contains op && y.isNumeral
  | n => n.isNumeral

def isExpression : Node → Bool
  | binary x op y _ => x.isLiteral && arithmeticSigns.contains op && y.isExpression
  | n => n.isUnary || n.isComparison || n.isLiteral

def isBinary : Node → Bool
  | binary x op y sp => (binary x op y sp).isExpression
  | n => n.isLiteral

def isDeclaration : Node → Bool
  | declaration i x _ => i.isIdentifier && x.isExpression
  | _ => false

def isAssignment : Node → Bool
  | assignment i x _ => i.isIdentifier && x.isExpression
  | _ => false

def isPragma : Node → Bool
  | pragma name x _ => isName name.toList && x.isNumeral
  | _ => false

def isStatement (n : Node) : Bool :=
  n.isDeclaration || n.isAssignment

def isBlock : Node → Bool
  | block xs _ => xs.all isStatement
  | _ => false

def isProgram : Node → Bool
  | program x _ => x.isBlock
  | _ => false

end Node

/-- The tree has the shape of the entry. -/
def Entry.grammatical : Entry → Node → Bool
  | program => Node.isProgram
  | block => Node.isBlock
  | statement => Node.isStatement
  | declaration => Node.isDeclaration
  | assignment => Node.isAssignment
  | pragma => Node.isPragma
  | expression => Node.isExpression
  | binary => Node.isBinary
  | comparison => Node.isComparison
  | unary => Node.isUnary
  | literal => Node.isLiteral
  | symbol => Node.isIdentifier
  | numeral => Node.isNumeral
  | truth => Node.isTruth

/-! ## Derived trees are grammatical -/

theorem mem_arithmeticSigns {k : Kind} {op : String} (h : k.arithmetic? = some op) : op ∈ arithmeticSigns := by
  cases k <;> simp [Kind.arithmetic?] at h <;> subst h <;> decide

theorem mem_comparisonSigns {k : Kind} {op : String} (h : k.comparison? = some op) : op ∈ comparisonSigns := by
  cases k <;> simp [Kind.comparison?] at h <;> subst h <;> decide

theorem truthValue?_eq_none {w : String} : truthValue? w = none ↔ w ≠ "true" ∧ w ≠ "false" := by
  unfold truthValue?
  grind

namespace Node

variable {n : Node}

theorem isLiteral_of_isNumeral (h : n.isNumeral = true) : n.isLiteral = true := by
  cases n <;> simp_all [isNumeral, isLiteral]

theorem isLiteral_of_isTruth (h : n.isTruth = true) : n.isLiteral = true := by
  cases n <;> simp_all [isTruth, isLiteral]

theorem isComparison_of_isNumeral (h : n.isNumeral = true) : n.isComparison = true := by
  cases n <;> simp_all [isNumeral, isComparison]

theorem isBinary_of_isLiteral (h : n.isLiteral = true) : n.isBinary = true := by
  cases n <;> simp_all [isLiteral, isNumeral, isTruth, isBinary]

theorem isExpression_of_isUnary (h : n.isUnary = true) : n.isExpression = true := by
  cases n <;> simp_all [isUnary, isExpression]

theorem isExpression_of_isComparison (h : n.isComparison = true) : n.isExpression = true := by
  cases n <;> simp_all [isComparison, isNumeral, isExpression]

theorem isExpression_of_isBinary (h : n.isBinary = true) : n.isExpression = true := by
  cases n <;> simp_all [isBinary, isLiteral, isNumeral, isTruth, isExpression]

end Node

theorem Derives.grammatical {e : Entry} {ts : List Token} {n : Node} (h : Derives e ts n)
    (ha : ∀ t ∈ ts, ({} : Lexicon).Accepts t) : e.grammatical n = true := by
  induction h with
  | @symbol t _ hk =>
    obtain ⟨_, hl⟩ := ha t (by simp)
    rw [hk] at hl
    exact hl.of_symbol.1
  | @numeral t v _ hk hv =>
    obtain ⟨_, hl⟩ := ha t (by simp)
    rw [hk] at hl
    obtain ⟨hval, hlimit⟩ := hl.of_numeric
    obtain rfl : v = (Text.decimalValue t.text.toList : Int) := by simpa [hv] using hval
    simpa [Entry.grammatical, Node.isNumeral] using hlimit
  | truth => rfl
  | literalNumeral _ ih => exact Node.isLiteral_of_isNumeral (ih ha)
  | literalTruth _ ih => exact Node.isLiteral_of_isTruth (ih ha)
  | literalSymbol hd ht ih =>
    cases hd with
    | symbol =>
      have hname : isName _ = true := ih ha
      simpa [Entry.grammatical, Node.isLiteral, hname] using truthValue?_eq_none.1 ht
  | minus _ _ ih | minusMinus _ _ _ _ ih | plusPlus _ _ _ _ ih =>
    have hx : Node.isLiteral _ = true := ih fun t ht => ha t (by simp [ht])
    simp [Entry.grammatical, Node.isUnary, unarySigns, hx]
  | comparisonNumeral _ ih => exact Node.isComparison_of_isNumeral (ih ha)
  | comparison _ hop _ ihx ihy =>
    have hx : Node.isNumeral _ = true := ihx fun t ht => ha t (by simp [ht])
    have hy : Node.isNumeral _ = true := ihy fun t ht => ha t (by simp [ht])
    simp [Entry.grammatical, Node.isComparison, hx, mem_comparisonSigns hop, hy]
  | binaryLiteral _ ih => exact Node.isBinary_of_isLiteral (ih ha)
  | binary _ hop _ ihx ihy =>
    have hx : Node.isLiteral _ = true := ihx fun t ht => ha t (by simp [ht])
    have hy : Node.isExpression _ = true := ihy fun t ht => ha t (by simp [ht])
    simp [Entry.grammatical, Node.isBinary, Node.isExpression, hx, mem_arithmeticSigns hop, hy]
  | expressionUnary _ ih => exact Node.isExpression_of_isUnary (ih ha)
  | expressionComparison _ ih => exact Node.isExpression_of_isComparison (ih ha)
  | expressionBinary _ ih => exact Node.isExpression_of_isBinary (ih ha)
  | declaration _ _ _ _ _ ihi ihx =>
    have hi : Node.isIdentifier _ = true := ihi fun t ht => ha t (by simp [ht])
    have hx : Node.isExpression _ = true := ihx fun t ht => ha t (by simp [ht])
    simp [Entry.grammatical, Node.isDeclaration, hi, hx]
  | assignment _ _ _ _ ihi ihx =>
    have hi : Node.isIdentifier _ = true := ihi fun t ht => ha t (by simp [ht])
    have hx : Node.isExpression _ = true := ihx fun t ht => ha t (by simp [ht])
    simp [Entry.grammatical, Node.isAssignment, hi, hx]
  | @pragma _ name _ _ _ _ _ _ _ hn _ _ _ _ ih =>
    obtain ⟨_, hl⟩ := ha name (by simp)
    rw [hn] at hl
    have hx : Node.isNumeral _ = true := ih fun t ht => ha t (by simp [ht])
    simp [Entry.grammatical, Node.isPragma, hl.of_symbol.1, hx]
  | statementDeclaration _ ih => exact Bool.or_eq_true_iff.2 (.inl (ih ha))
  | statementAssignment _ ih => exact Bool.or_eq_true_iff.2 (.inr (ih ha))
  | blockNil => rfl
  | blockCons _ _ ihx ihxs =>
    have hx : Node.isStatement _ = true := ihx fun t ht => ha t (by simp [ht])
    have hxs : List.all _ Node.isStatement = true := ihxs fun t ht => ha t (by simp [ht])
    exact Bool.and_eq_true_iff.2 ⟨hx, hxs⟩
  | program _ ih => exact ih ha

/-! ## Grammatical trees are derived -/

/-- A token that is nowhere, so that any two such tokens touch. -/
def Token.ofLexeme (k : Kind) (text : String) (v : Option Int) : Token :=
  ⟨k, text, 0, 0, ⟨"", 1, 1, 0⟩, v⟩

def Token.ofSign (k : Kind) (x : Char) : Token :=
  .ofLexeme k (String.ofList [x]) none

theorem Lexicon.accepts_sign {lx : Lexicon} {x : Char} {k : Kind} (hx : punctuation? x = some k)
    (hk : k ≠ .underscore) : lx.Accepts (.ofSign k x) := by
  refine ⟨[], ?_⟩
  simpa [Token.ofSign, Token.ofLexeme] using Lexeme.sign hx hk fun _ => rfl

theorem Lexicon.accepts_name {lx : Lexicon} {name : String} (h : isName name.toList = true) (hr : name ∉ lx.reserved) :
    lx.Accepts (.ofLexeme .symbol name none) :=
  ⟨[], .symbol h (by simpa [Token.ofLexeme] using hr) rfl⟩

theorem exists_arithmetic {op : String} (h : op ∈ arithmeticSigns) :
    ∃ t, ({} : Lexicon).Accepts t ∧ t.kind.arithmetic? = some op := by
  simp only [arithmeticSigns, List.mem_cons, List.not_mem_nil, or_false] at h
  rcases h with rfl | rfl | rfl | rfl
  · exact ⟨.ofSign .plus '+', Lexicon.accepts_sign rfl (by decide), rfl⟩
  · exact ⟨.ofSign .minus '-', Lexicon.accepts_sign rfl (by decide), rfl⟩
  · exact ⟨.ofSign .times '*', Lexicon.accepts_sign rfl (by decide), rfl⟩
  · exact ⟨.ofSign .division '/', Lexicon.accepts_sign rfl (by decide), rfl⟩

theorem exists_comparison {op : String} (h : op ∈ comparisonSigns) :
    ∃ t, ({} : Lexicon).Accepts t ∧ t.kind.comparison? = some op := by
  simp only [comparisonSigns, List.mem_cons, List.not_mem_nil, or_false] at h
  rcases h with rfl | rfl | rfl | rfl | rfl
  · exact ⟨.ofSign .less '<', Lexicon.accepts_sign rfl (by decide), rfl⟩
  · exact ⟨.ofLexeme .lessEqual "<=" none, ⟨[], .lessEqual⟩, rfl⟩
  · exact ⟨.ofSign .greater '>', Lexicon.accepts_sign rfl (by decide), rfl⟩
  · exact ⟨.ofLexeme .greaterEqual ">=" none, ⟨[], .greaterEqual⟩, rfl⟩
  · exact ⟨.ofSign .equals '=', Lexicon.accepts_sign rfl (by decide), rfl⟩

namespace Entry

/-- Some tokens of the default lexicon have the tree as entry `e`. -/
def Derivable (e : Entry) (n : Node) : Prop :=
  ∃ ts, (∀ t ∈ ts, ({} : Lexicon).Accepts t) ∧ Derives e ts n

namespace Derivable

variable {e e' : Entry} {n x y i : Node} {op name : String} {sp : Option Span}

theorem imp (h : Derivable e n) (hd : ∀ {ts}, Derives e ts n → Derives e' ts n) : Derivable e' n := by
  obtain ⟨ts, ha, h⟩ := h
  exact ⟨ts, ha, hd h⟩

theorem symbol (h : n.isIdentifier = true) : Derivable .symbol n := by
  cases n with
  | symbol name sp =>
    have ha : ({} : Lexicon).Accepts (.ofLexeme .symbol name none) := Lexicon.accepts_name h (by simp)
    exact ⟨[_], by simpa using ha, .symbol rfl⟩
  | _ => simp [Node.isIdentifier] at h

theorem numeral (h : n.isNumeral = true) : Derivable .numeral n := by
  cases n with
  | numeral v sp =>
    obtain ⟨h0, hv⟩ : 0 ≤ v ∧ v ≤ maxNumeral := by simpa [Node.isNumeral] using h
    obtain ⟨d, rfl⟩ := Int.eq_ofNat_of_zero_le h0
    have ha : ({} : Lexicon).Accepts (.ofLexeme .numeric (Text.decimal d) (some d)) :=
      ⟨[], .decimal (Lexicon.roomy_default []).writable hv rfl⟩
    exact ⟨[_], by simpa using ha, .numeral rfl rfl⟩
  | _ => simp [Node.isNumeral] at h

theorem truth (h : n.isTruth = true) : Derivable .truth n := by
  cases n with
  | truth b sp =>
    have hname : isName (if b then "true" else "false").toList = true := by cases b <;> decide
    have ha : ({} : Lexicon).Accepts (.ofLexeme .symbol _ none) := Lexicon.accepts_name hname (by simp)
    have hb : truthValue? (if b then "true" else "false") = some b := by cases b <;> rfl
    exact ⟨[_], by simpa using ha, .truth rfl hb⟩
  | _ => simp [Node.isTruth] at h

theorem literal (h : n.isLiteral = true) : Derivable .literal n := by
  unfold Node.isLiteral at h
  split at h
  · next name sp =>
    obtain ⟨⟨hname, ht⟩, hf⟩ : (isName name.toList = true ∧ name ≠ "true") ∧ name ≠ "false" := by simpa using h
    have ha : ({} : Lexicon).Accepts (.ofLexeme .symbol name none) := Lexicon.accepts_name hname (by simp)
    have hnone := truthValue?_eq_none.2 ⟨ht, hf⟩
    exact ⟨[_], by simpa using ha, .literalSymbol (.symbol rfl) hnone⟩
  · rcases Bool.or_eq_true_iff.1 h with h | h
    · exact (numeral h).imp .literalNumeral
    · exact (truth h).imp .literalTruth

theorem unary (h : n.isUnary = true) : Derivable .unary n := by
  cases n with
  | unary op x sp =>
    obtain ⟨hop, hx⟩ : op ∈ unarySigns ∧ x.isLiteral = true := by simpa [Node.isUnary] using h
    obtain ⟨ts, ha, hd⟩ := literal hx
    have hm : ({} : Lexicon).Accepts (.ofSign .minus '-') := Lexicon.accepts_sign rfl (by decide)
    have hp : ({} : Lexicon).Accepts (.ofSign .plus '+') := Lexicon.accepts_sign rfl (by decide)
    simp only [unarySigns, List.mem_cons, List.not_mem_nil, or_false] at hop
    rcases hop with rfl | rfl | rfl
    · exact ⟨_ :: ts, List.forall_mem_cons.2 ⟨hm, ha⟩, .minus rfl hd⟩
    · exact ⟨_ :: _ :: ts, List.forall_mem_cons.2 ⟨hm, List.forall_mem_cons.2 ⟨hm, ha⟩⟩, .minusMinus rfl rfl rfl hd⟩
    · exact ⟨_ :: _ :: ts, List.forall_mem_cons.2 ⟨hp, List.forall_mem_cons.2 ⟨hp, ha⟩⟩, .plusPlus rfl rfl rfl hd⟩
  | _ => simp [Node.isUnary] at h

theorem comparison (h : n.isComparison = true) : Derivable .comparison n := by
  unfold Node.isComparison at h
  split at h
  · next x op y sp =>
    obtain ⟨⟨hx, hop⟩, hy⟩ : (x.isNumeral = true ∧ op ∈ comparisonSigns) ∧ y.isNumeral = true := by simpa using h
    obtain ⟨ts, hts, hx⟩ := numeral hx
    obtain ⟨t, ht, hop⟩ := exists_comparison hop
    obtain ⟨us, hus, hy⟩ := numeral hy
    exact ⟨ts ++ t :: us, List.forall_mem_append.2 ⟨hts, List.forall_mem_cons.2 ⟨ht, hus⟩⟩, .comparison hx hop hy⟩
  · exact (numeral h).imp .comparisonNumeral

theorem binary (hx : Derivable .literal x) (hop : op ∈ arithmeticSigns) (hy : Derivable .expression y) :
    Derivable .binary (.binary x op y sp) := by
  obtain ⟨ts, hts, hx⟩ := hx
  obtain ⟨t, ht, hop⟩ := exists_arithmetic hop
  obtain ⟨us, hus, hy⟩ := hy
  exact ⟨ts ++ t :: us, List.forall_mem_append.2 ⟨hts, List.forall_mem_cons.2 ⟨ht, hus⟩⟩, .binary hx hop hy⟩

theorem expression (h : n.isExpression = true) : Derivable .expression n := by
  fun_induction Node.isExpression n with
  | case1 x op y sp ih =>
    obtain ⟨⟨hx, hop⟩, hy⟩ : (x.isLiteral = true ∧ op ∈ arithmeticSigns) ∧ y.isExpression = true := by simpa using h
    exact (binary (literal hx) hop (ih hy)).imp .expressionBinary
  | case2 n =>
    rcases Bool.or_eq_true_iff.1 h with h | h
    · rcases Bool.or_eq_true_iff.1 h with h | h
      · exact (unary h).imp .expressionUnary
      · exact (comparison h).imp .expressionComparison
    · exact ((literal h).imp .binaryLiteral).imp .expressionBinary

theorem declaration (h : n.isDeclaration = true) : Derivable .declaration n := by
  cases n with
  | declaration i x sp =>
    obtain ⟨hi, hx⟩ : i.isIdentifier = true ∧ x.isExpression = true := by simpa [Node.isDeclaration] using h
    obtain ⟨ts, hts, hi⟩ := symbol hi
    obtain ⟨us, hus, hx⟩ := expression hx
    have hc : ({} : Lexicon).Accepts (.ofSign .colon ':') := Lexicon.accepts_sign rfl (by decide)
    have hq : ({} : Lexicon).Accepts (.ofSign .equals '=') := Lexicon.accepts_sign rfl (by decide)
    have hd : ({} : Lexicon).Accepts (.ofSign .dot '.') := Lexicon.accepts_sign rfl (by decide)
    exact ⟨ts ++ .ofSign .colon ':' :: .ofSign .equals '=' :: (us ++ [.ofSign .dot '.']),
      by simpa [or_imp, forall_and, hc, hq, hd] using ⟨hts, hus⟩, .declaration hi rfl rfl hx rfl⟩
  | _ => simp [Node.isDeclaration] at h

theorem assignment (h : n.isAssignment = true) : Derivable .assignment n := by
  cases n with
  | assignment i x sp =>
    obtain ⟨hi, hx⟩ : i.isIdentifier = true ∧ x.isExpression = true := by simpa [Node.isAssignment] using h
    obtain ⟨ts, hts, hi⟩ := symbol hi
    obtain ⟨us, hus, hx⟩ := expression hx
    have hq : ({} : Lexicon).Accepts (.ofSign .equals '=') := Lexicon.accepts_sign rfl (by decide)
    have hd : ({} : Lexicon).Accepts (.ofSign .dot '.') := Lexicon.accepts_sign rfl (by decide)
    exact ⟨ts ++ .ofSign .equals '=' :: (us ++ [.ofSign .dot '.']),
      by simpa [or_imp, forall_and, hq, hd] using ⟨hts, hus⟩, .assignment hi rfl hx rfl⟩
  | _ => simp [Node.isAssignment] at h

theorem pragma (h : n.isPragma = true) : Derivable .pragma n := by
  cases n with
  | pragma name x sp =>
    obtain ⟨hname, hx⟩ : isName name.toList = true ∧ x.isNumeral = true := by simpa [Node.isPragma] using h
    obtain ⟨ts, hts, hx⟩ := numeral hx
    have hn : ({} : Lexicon).Accepts (.ofLexeme .symbol name none) := Lexicon.accepts_name hname (by simp)
    have hb : ({} : Lexicon).Accepts (.ofSign .backtick '`') := Lexicon.accepts_sign rfl (by decide)
    have hl : ({} : Lexicon).Accepts (.ofSign .bracketLeft '[') := Lexicon.accepts_sign rfl (by decide)
    have hr : ({} : Lexicon).Accepts (.ofSign .bracketRight ']') := Lexicon.accepts_sign rfl (by decide)
    exact ⟨.ofSign .backtick '`' :: .ofLexeme .symbol name none :: .ofSign .bracketLeft '[' ::
      (ts ++ [.ofSign .bracketRight ']', .ofSign .backtick '`']),
      by simpa [or_imp, forall_and, hb, hn, hl, hr] using hts, .pragma rfl rfl rfl hx rfl rfl⟩
  | _ => simp [Node.isPragma] at h

theorem statement (h : n.isStatement = true) : Derivable .statement n := by
  rcases Bool.or_eq_true_iff.1 h with h | h
  · exact (declaration h).imp .statementDeclaration
  · exact (assignment h).imp .statementAssignment

theorem block (h : n.isBlock = true) : Derivable .block n := by
  cases n with
  | block xs sp =>
    rw [Node.isBlock] at h
    induction xs generalizing sp with
    | nil => exact ⟨[], by simp, .blockNil⟩
    | cons x xs ih =>
      obtain ⟨hx, hxs⟩ := Bool.and_eq_true_iff.1 h
      obtain ⟨ts, hts, hx⟩ := statement hx
      obtain ⟨us, hus, hxs⟩ := ih none hxs
      exact ⟨ts ++ us, List.forall_mem_append.2 ⟨hts, hus⟩, .blockCons hx hxs⟩
  | _ => simp [Node.isBlock] at h

theorem program (h : n.isProgram = true) : Derivable .program n := by
  cases n with
  | program x sp =>
    obtain ⟨ts, ha, hx⟩ := block h
    exact ⟨ts, ha, .program hx⟩
  | _ => simp [Node.isProgram] at h

theorem of_isBinary (h : n.isBinary = true) : Derivable .binary n := by
  unfold Node.isBinary at h
  split at h
  · next x op y sp =>
    obtain ⟨⟨hx, hop⟩, hy⟩ : (x.isLiteral = true ∧ op ∈ arithmeticSigns) ∧ y.isExpression = true := by
      simpa [Node.isExpression] using h
    exact binary (literal hx) hop (expression hy)
  · exact (literal h).imp .binaryLiteral

end Derivable

/-- **The grammatical trees** are the trees of derivations. -/
theorem derivable_iff_grammatical {e : Entry} {n : Node} : e.Derivable n ↔ e.grammatical n = true := by
  constructor
  · rintro ⟨ts, ha, hd⟩
    exact hd.grammatical ha
  · intro h
    cases e with
    | program => exact .program h
    | block => exact .block h
    | statement => exact .statement h
    | declaration => exact .declaration h
    | assignment => exact .assignment h
    | pragma => exact .pragma h
    | expression => exact .expression h
    | binary => exact .of_isBinary h
    | comparison => exact .comparison h
    | unary => exact .unary h
    | literal => exact .literal h
    | symbol => exact .symbol h
    | numeral => exact .numeral h
    | truth => exact .truth h

end Entry

end FrontEnd
