import FrontEnd.Proofs.Grammar.Reserved
import FrontEnd.Proofs.Node.Grammatical
import FrontEnd.Proofs.Reading.Outcome

/-!
# Texts with reserved words

A lexicon tells words from each other by the ones it reserves, and by nothing else: its tokens of a text are those of
the lexicon that reserves none, with the symbols among its words made keywords (**`Lexicon.tokenize_reserved`**). So to
parse a text with reserved words is to parse it without them and to refuse the trees that use them as names
(**`Lexicon.parse_reserved_iff`**). Where a value is read, `true` and `false` are never names
(`Derives.avoids_truthWords`), so there it makes no difference whether they are reserved.
-/

namespace FrontEnd

/-! ## Values -/

/-- Whether what is read from the entry is a value. -/
def Entry.isValue : Entry → Bool
  | truth | numeral | literal | unary | comparison | binary | expression => true
  | _ => false

/-- In what has a value, truth words denote truth values and nothing else. -/
theorem Derives.avoids_truthWords {e : Entry} {ts : List Token} {n : Node} (h : Derives e ts n)
    (he : e.isValue = true) : n.Avoids ["true", "false"] := by
  induction h with
  | numeral | truth => exact Node.avoids_of_children rfl (List.forall_mem_nil _)
  | literalNumeral _ ih | literalTruth _ ih | comparisonNumeral _ ih | binaryLiteral _ ih | expressionUnary _ ih
  | expressionComparison _ ih | expressionBinary _ ih => exact ih rfl
  | @literalSymbol t x hd ht =>
    cases hd with
    | symbol =>
      have htext : t.text ∉ ["true", "false"] := by simpa using truthValue?_eq_none.1 ht
      exact Node.avoids_of_name rfl htext (List.forall_mem_nil _)
  | minus _ _ ih | minusMinus _ _ _ _ ih | plusPlus _ _ _ _ ih =>
    exact Node.avoids_of_children rfl (List.forall_mem_singleton.2 (ih rfl))
  | comparison _ _ _ ihl ihr | binary _ _ _ ihl ihr =>
    exact (Node.avoids_pair rfl rfl).2 ⟨ihl rfl, ihr rfl⟩
  | symbol | declaration | assignment | pragma | statementDeclaration | statementAssignment | blockNil | blockCons
  | program => cases he

/-! ## Streams of tokens -/

theorem Token.reserve_endAfter (words : List String) (t : Token) :
    (t.reserve words).endAfter = t.endAfter.reserve words := by
  obtain ⟨-, hstart, hstop, hlocation, -⟩ := t.reserve_fields words
  rw [reserve_of_kind (show t.endAfter.kind ≠ .symbol by simp [endAfter])]
  simp only [endAfter, hstart, hstop, hlocation]

theorem Stream.ofTokens_reserve (words : List String) (ts : List Token) :
    ofTokens (ts.map (Token.reserve words)) = (ofTokens ts).reserve words := by
  rcases List.eq_nil_or_concat ts with rfl | ⟨ts, t, rfl⟩
  · rfl
  rw [List.concat_eq_append, List.map_append, List.map_singleton, ofTokens_concat, ofTokens_concat]
  rw [Token.isEnd_reserve, Token.reserve_endAfter]
  split
  · rfl
  · rw [reserve, List.map_append, List.map_singleton]

namespace Lexicon

variable {words : List String} {limit : Int} {maxDigits : Option Nat} {file : String} {c : Cursor}

/-! ## Tokens -/

/-- A sign is no symbol, with or without an equals sign behind it. -/
theorem sign_ne_symbol {x : Char} {k : Kind} (h : punctuation? x = some k) (after : List Char) :
    (sign k after).1 ≠ .symbol := by
  have hk : k ≠ .symbol := fun hk => kind_of_punctuation h (by simp [hk])
  unfold sign
  split
  · next k' _ hk' =>
    intro hsymbol
    subst hsymbol
    cases k <;> simp [Kind.withEquals?] at hk'
  · exact hk

/-- The result with the words reserved. -/
def reserving (words : List String) (r : Except LexicalRefusal Token × Cursor) :
    Except LexicalRefusal Token × Cursor :=
  (r.1.map (Token.reserve words), r.2)

theorem reserving_token {t : Token} (h : t.kind ≠ .symbol) : reserving words (.ok t, c) = (.ok t, c) := by
  rw [reserving, Except.map, Token.reserve_of_kind h]

theorem word_reserved (c : Cursor) :
    (Lexicon.mk words limit maxDigits).word file c =
      (((Lexicon.mk [] limit maxDigits).word file c).1.reserve words,
        ((Lexicon.mk [] limit maxDigits).word file c).2) := by
  simp only [word, wordKind, Token.reserve, Cursor.token, List.contains_eq_mem, List.not_mem_nil, decide_false,
    Bool.false_eq_true, if_false, true_and, decide_eq_true_eq]
  split <;> rfl

theorem numeral_reserved (c : Cursor) :
    (Lexicon.mk words limit maxDigits).numeral file c =
      reserving words ((Lexicon.mk [] limit maxDigits).numeral file c) := by
  have hvalue : (Lexicon.mk words limit maxDigits).value? = (Lexicon.mk [] limit maxDigits).value? := rfl
  simp only [numeral, hvalue]
  split
  · rw [reserving_token (by simp [Cursor.token])]
  · rfl
  · rfl

theorem here_reserved (c : Cursor) :
    (Lexicon.mk words limit maxDigits).here file c = reserving words ((Lexicon.mk [] limit maxDigits).here file c) := by
  unfold here
  split
  case h_1 => rw [reserving_token (by simp [Cursor.token])]
  case h_2 x xs _ =>
    by_cases hw : isWordStart x = true
    · rw [if_pos hw, if_pos hw, word_reserved]
      rfl
    · rw [if_neg hw, if_neg hw]
      by_cases hd : isDigit x = true
      · rw [if_pos hd, if_pos hd, numeral_reserved]
      · rw [if_neg hd, if_neg hd]
        split
        case h_1 k hk => rw [reserving_token (sign_ne_symbol hk xs)]
        case h_2 => rfl

theorem next_reserved (c : Cursor) :
    (Lexicon.mk words limit maxDigits).next file c = reserving words ((Lexicon.mk [] limit maxDigits).next file c) :=
  here_reserved c.skipBlanks

/-- The induction is on what is left of the text. -/
theorem drain_reserved (c : Cursor) :
    ((Lexicon.mk words limit maxDigits).drain file c).1 =
      ((Lexicon.mk [] limit maxDigits).drain file c).1.map (List.map (Token.reserve words)) := by
  fun_induction drain (Lexicon.mk [] limit maxDigits) file c with
  | case1 c e c' h =>
    rw [drain_of_error (by rw [next_reserved, h]; rfl)]
    rfl
  | case2 c t c' h ht =>
    rw [drain_of_end (by rw [next_reserved, h]; rfl) (by rw [Token.isEnd_reserve, ht])]
    rfl
  | case3 c t c' h ht _ ts c'' hd ih | case4 c t c' h ht _ e c'' hd ih =>
    rw [drain_of_ok (by rw [next_reserved, h]; rfl) (by rw [Token.isEnd_reserve]; simpa using ht)]
    rw [ih, hd]
    rfl

/-- **Words are reserved after they are scanned**: to reserve words in a lexicon is to reserve them in the tokens of
each text. -/
theorem tokenize_reserved (words : List String) (limit : Int) (maxDigits : Option Nat) (file text : String) :
    (Lexicon.mk words limit maxDigits).tokenize file text =
      ((Lexicon.mk [] limit maxDigits).tokenize file text).map (List.map (Token.reserve words)) :=
  drain_reserved (.ofText text.toList)

/-! ## Trees -/

variable {entry text : String} {allowTrailing : Bool} {n : Node}

theorem named_heeds (s : Stream) :
    (Parse.named entry allowTrailing (s.reserve words)).1 = .ok n ↔
      (Parse.named entry allowTrailing s).1 = .ok n ∧ n.Avoids words := by
  unfold Parse.named
  cases Entry.ofName? entry with
  | none => simp [Parse.misuse]
  | some e =>
    constructor
    · intro h
      obtain ⟨s₁, hs, -, hn⟩ := (e.parse_heeds allowTrailing n _).1 (Prod.ext h rfl)
      exact ⟨congrArg Prod.fst hs, hn⟩
    · rintro ⟨h, hn⟩
      exact congrArg Prod.fst ((e.parse_heeds allowTrailing n _).2 ⟨_, Prod.ext h rfl, rfl, hn⟩)

/-- What a text is parsed to is what its tokens are parsed to. -/
theorem parse_eq_ok {lx : Lexicon} :
    lx.parse file entry allowTrailing text = .ok n ↔
      ∃ ts, lx.tokenize file text = .ok ts ∧ (Parse.named entry allowTrailing (.ofTokens ts)).1 = .ok n := by
  unfold parse
  cases lx.tokenize file text with
  | error f => simp
  | ok ts =>
    cases hr : (Parse.named entry allowTrailing (.ofTokens ts)).1 <;> simp [hr, Except.mapError]

theorem parse_reserved :
    (Lexicon.mk words limit maxDigits).parse file entry allowTrailing text = .ok n ↔
      (Lexicon.mk [] limit maxDigits).parse file entry allowTrailing text = .ok n ∧ n.Avoids words := by
  rw [parse_eq_ok, parse_eq_ok, tokenize_reserved]
  cases (Lexicon.mk [] limit maxDigits).tokenize file text with
  | error f => simp [Except.map]
  | ok ts => simp [Except.map, Stream.ofTokens_reserve, named_heeds]

theorem parse_avoids_truthWords {lx : Lexicon} {e : Entry} (he : e.isValue = true)
    (h : lx.parse file e.name allowTrailing text = .ok n) : n.Avoids ["true", "false"] := by
  obtain ⟨ts, ht, hn⟩ := parse_eq_ok.1 h
  rw [Parse.named, Entry.ofName?_name] at hn
  have hparse : e.parse allowTrailing (.ofTokens ts) = (.ok n, (e.parse allowTrailing (.ofTokens ts)).2) :=
    Prod.ext hn rfl
  obtain ⟨us, -, hd⟩ := Entry.parser_derives (valued_of_tokenize ht) (Entry.parser_of_parse hparse)
  exact hd.avoids_truthWords he

/-- **Reserving words only rejects**: a text is parsed with reserved words exactly when without them it is parsed to a
tree that has none of them as a name, and to the same tree. So a value is read as before when the truth words are
reserved, too, and what is parsed with some words reserved is parsed with fewer. -/
theorem parse_reserved_iff (limit : Int) (file text : String) (allowTrailing : Bool) (words : List String) :
    (∀ entry n, ({ reserved := words, limit } : Lexicon).parse file entry allowTrailing text = .ok n ↔
      ({ limit } : Lexicon).parse file entry allowTrailing text = .ok n ∧ ∀ name ∈ n.names, name ∉ words) ∧
    (∀ e : Entry, e.isValue = true → ∀ truths, truths ⊆ ["true", "false"] → ∀ n,
      ({ reserved := truths ++ words, limit } : Lexicon).parse file e.name allowTrailing text = .ok n ↔
        ({ reserved := words, limit } : Lexicon).parse file e.name allowTrailing text = .ok n) ∧
    ∀ words', words ⊆ words' → ∀ entry n,
      ({ reserved := words', limit } : Lexicon).parse file entry allowTrailing text = .ok n →
      ({ reserved := words, limit } : Lexicon).parse file entry allowTrailing text = .ok n := by
  have hmono : ∀ {fewer more entry n}, fewer ⊆ more →
      ({ reserved := more, limit } : Lexicon).parse file entry allowTrailing text = .ok n →
      ({ reserved := fewer, limit } : Lexicon).parse file entry allowTrailing text = .ok n := by
    intro fewer more entry n hsub h
    obtain ⟨hn, havoids⟩ := parse_reserved.1 h
    exact parse_reserved.2 ⟨hn, havoids.mono hsub⟩
  refine ⟨fun entry n => parse_reserved, fun e he truths htruths n => ?_, fun words' hsub entry n => hmono hsub⟩
  constructor
  · exact hmono (List.subset_append_right truths words)
  · intro h
    obtain ⟨hn, havoids⟩ := parse_reserved.1 h
    refine parse_reserved.2 ⟨hn, fun name hname hmem => ?_⟩
    rcases List.mem_append.1 hmem with hmem | hmem
    · exact parse_avoids_truthWords he hn name hname (htruths hmem)
    · exact havoids name hname hmem

/-- In a sum of `true` and a name, `true` may be reserved and the name may not; without any of them reserved the sum is
read as well. -/
theorem parse_reserved_sum :
    ∃ n, n.names = ["x"] ∧ ({ reserved := ["true"] } : Lexicon).parse "" "expression" false "true+x" = .ok n ∧
      ({} : Lexicon).parse "" "expression" false "true+x" = .ok n ∧
      ({ reserved := ["x"] } : Lexicon).parse "" "expression" false "true+x" ≠ .ok n := by
  let sum : Node := .binary (.truth true (some ⟨0, 4⟩)) "+" (.symbol "x" (some ⟨5, 6⟩)) (some ⟨0, 6⟩)
  have hnames : sum.names = ["x"] := by simp [sum, Node.names_eq, Node.ownName?, Node.children]
  have hsum : ({} : Lexicon).parse "" Entry.expression.name false "true+x" = .ok sum := by cbv
  have hnone := parse_reserved_iff maxNumeral "" "true+x" false []
  have htrue := (hnone.2.1 .expression rfl ["true"] (by simp) sum).2 hsum
  refine ⟨sum, hnames, htrue, hnone.2.2 ["true"] (List.nil_subset _) _ sum htrue, fun hx => ?_⟩
  have hname := ((parse_reserved_iff maxNumeral "" "true+x" false ["x"]).1 _ sum).1 hx
  exact hname.2 "x" (by rw [hnames]; exact List.mem_cons_self) List.mem_cons_self

end Lexicon

end FrontEnd
