import FrontEnd.Grammar.Statement
import FrontEnd.Proofs.Grammar.Derivation
import FrontEnd.Proofs.Grammar.Taking

/-!
# What parsers accept is derivable

A parser that succeeds on a stream whose numerals carry their values has taken tokens that derive its tree. One lemma
for each production; **`Entry.parser_derives`** collects them.
-/

namespace FrontEnd

namespace Parse

variable {s s' : Stream} {n : Node}

/-! ## Literals -/

theorem symbol_derives (h : symbol s = (.ok n, s')) :
    ∃ t rest, s.ahead = t :: rest ∧ s' = s.taking t rest ∧ Derives .symbol [t] n := by
  obtain ⟨f, hp, rfl⟩ := spanned_eq_ok.1 h
  obtain ⟨t, s₁, ht, hr⟩ := bind_eq_ok.1 hp
  obtain ⟨rest, ha, hk, rfl⟩ := expect_eq_ok.1 ht
  obtain ⟨rfl, rfl⟩ := pure_eq_ok.1 hr
  exact ⟨t, rest, ha, rfl, .symbol hk⟩

theorem valueOf_eq_ok {t : Token} {v w : Int} (ht : t.value = some w) (h : valueOf t s = (.ok v, s')) :
    v = w ∧ s' = s := by
  simp only [valueOf, ht] at h
  obtain ⟨rfl, rfl⟩ := pure_eq_ok.1 h
  exact ⟨rfl, rfl⟩

theorem numeral_derives (hs : s.Valued) (h : numeral s = (.ok n, s')) :
    ∃ ts, s.Takes ts s' ∧ Derives .numeral ts n := by
  obtain ⟨f, hp, rfl⟩ := spanned_eq_ok.1 h
  obtain ⟨t, s₁, ht, hp⟩ := bind_eq_ok.1 hp
  obtain ⟨rest, ha, hk, rfl⟩ := expect_eq_ok.1 ht
  obtain ⟨v, s₂, hv, hr⟩ := bind_eq_ok.1 hp
  obtain ⟨w, hw⟩ := hs t (by simp [ha]) hk
  obtain ⟨rfl, rfl⟩ := valueOf_eq_ok hw hv
  obtain ⟨rfl, rfl⟩ := pure_eq_ok.1 hr
  exact ⟨[t], .one ha, .numeral hk hw⟩

theorem truth_derives (h : truth s = (.ok n, s')) : ∃ ts, s.Takes ts s' ∧ Derives .truth ts n := by
  obtain ⟨f, hp, rfl⟩ := spanned_eq_ok.1 h
  simp only [bind_apply, peek_apply, ite_apply] at hp
  split at hp
  case isTrue hw =>
    cases hb : truthValue? s.peek.text with
    | none =>
      rw [hb] at hp
      exact absurd hp fail_ne_ok
    | some b =>
      rw [hb] at hp
      obtain ⟨t, s₁, ht, hr⟩ := bind_eq_ok.1 hp
      obtain ⟨rest, ha, rfl⟩ := consume_eq_ok.1 ht
      obtain ⟨rfl, rfl⟩ := pure_eq_ok.1 hr
      rw [Stream.peek_eq ha] at hw hb
      exact ⟨[t], .one ha, .truth hw hb⟩
  case isFalse => exact absurd hp fail_ne_ok

/-- A symbol that is no truth word. -/
theorem truthValue?_of_symbol {t : Token} (hk : t.kind = .symbol) (ht : ¬ t.isTruthWord = true) :
    truthValue? t.text = none := by
  simpa [Token.isTruthWord, Token.isWord, hk] using ht

theorem literal_derives (hs : s.Valued) (h : literal s = (.ok n, s')) :
    ∃ ts, s.Takes ts s' ∧ Derives .literal ts n := by
  simp only [literal, bind_apply, peek_apply, ite_apply] at h
  split at h
  case isTrue =>
    obtain ⟨ts, ht, hd⟩ := numeral_derives hs h
    exact ⟨ts, ht, .literalNumeral hd⟩
  case isFalse =>
    split at h
    case isTrue =>
      obtain ⟨ts, ht, hd⟩ := truth_derives h
      exact ⟨ts, ht, .literalTruth hd⟩
    case isFalse hw =>
      split at h
      case isTrue hk =>
        obtain ⟨t, rest, ha, rfl, hd⟩ := symbol_derives h
        rw [Stream.peek_eq ha] at hw hk
        exact ⟨[t], .one ha, .literalSymbol hd (truthValue?_of_symbol hk hw)⟩
      case isFalse => exact absurd h fail_ne_ok

/-! ## Expressions -/

/-- The sign of a unary expression, with the literal still to come. -/
theorem unarySign_derives {op : String} (h : unarySign s = (.ok op, s')) :
    ∃ ts, s.Takes ts s' ∧ ∀ {us x sp}, Derives .literal us x → Derives .unary (ts ++ us) (.unary op x sp) := by
  obtain ⟨first, s₀, hf, h⟩ := bind_eq_ok.1 h
  obtain ⟨rfl, rfl⟩ := peek_eq_ok.1 hf
  rw [ite_apply] at h
  split at h
  case isTrue hm =>
    obtain ⟨t, s₁, ht, h⟩ := bind_eq_ok.1 h
    obtain ⟨rest, ha, rfl⟩ := consume_eq_ok.1 ht
    rw [Stream.peek_eq ha] at hm h
    obtain ⟨second, s₂, hs, h⟩ := bind_eq_ok.1 h
    obtain ⟨rfl, rfl⟩ := peek_eq_ok.1 hs
    rw [ite_apply] at h
    split at h
    case isTrue hadj =>
      obtain ⟨u, s₃, hu, h⟩ := bind_eq_ok.1 h
      obtain ⟨rest', ha', rfl⟩ := consume_eq_ok.1 hu
      obtain ⟨rfl, rfl⟩ := pure_eq_ok.1 h
      rw [Stream.peek_eq ha'] at hadj
      exact ⟨[t, u], .cons ha (.one ha'), .minusMinus hm hadj.1 hadj.2⟩
    case isFalse =>
      obtain ⟨rfl, rfl⟩ := pure_eq_ok.1 h
      exact ⟨[t], .one ha, .minus hm⟩
  case isFalse =>
    rw [ite_apply] at h
    split at h
    case isFalse => exact absurd h fail_ne_ok
    case isTrue hp =>
      obtain ⟨t, s₁, ht, h⟩ := bind_eq_ok.1 h
      obtain ⟨rest, ha, rfl⟩ := consume_eq_ok.1 ht
      rw [Stream.peek_eq ha] at hp h
      obtain ⟨second, s₂, hs, h⟩ := bind_eq_ok.1 h
      obtain ⟨rfl, rfl⟩ := peek_eq_ok.1 hs
      rw [ite_apply] at h
      split at h
      case isTrue => exact absurd h fail_ne_ok
      case isFalse hk =>
        rw [ite_apply] at h
        split at h
        case isTrue => exact absurd h fail_ne_ok
        case isFalse hadj =>
          obtain ⟨u, s₃, hu, h⟩ := bind_eq_ok.1 h
          obtain ⟨rest', ha', rfl⟩ := consume_eq_ok.1 hu
          obtain ⟨rfl, rfl⟩ := pure_eq_ok.1 h
          rw [Stream.peek_eq ha'] at hk hadj
          exact ⟨[t, u], .cons ha (.one ha'), .plusPlus hp (Decidable.not_not.1 hk) (Decidable.not_not.1 hadj)⟩

theorem unary_derives (hs : s.Valued) (h : unary s = (.ok n, s')) : ∃ ts, s.Takes ts s' ∧ Derives .unary ts n := by
  obtain ⟨f, hp, rfl⟩ := spanned_eq_ok.1 h
  obtain ⟨op, s₁, hop, hp⟩ := bind_eq_ok.1 hp
  obtain ⟨x, s₂, hx, hr⟩ := bind_eq_ok.1 hp
  obtain ⟨rfl, rfl⟩ := pure_eq_ok.1 hr
  obtain ⟨ts, ht, hd⟩ := unarySign_derives hop
  obtain ⟨us, hu, hx⟩ := literal_derives (hs.of_takes ht) hx
  exact ⟨ts ++ us, ht.append hu, hd hx⟩

theorem comparison_derives (hs : s.Valued) (h : comparison s = (.ok n, s')) :
    ∃ ts, s.Takes ts s' ∧ Derives .comparison ts n := by
  obtain ⟨start, s₀, hst, h⟩ := bind_eq_ok.1 h
  obtain ⟨rfl, rfl⟩ := here_eq_ok.1 hst
  obtain ⟨x, s₁, hx, h⟩ := bind_eq_ok.1 h
  obtain ⟨ts, ht, hx⟩ := numeral_derives hs hx
  obtain ⟨t, s₂, hp, h⟩ := bind_eq_ok.1 h
  obtain ⟨rfl, rfl⟩ := peek_eq_ok.1 hp
  cases hop : s₁.peek.kind.comparison? with
  | none =>
    rw [hop] at h
    obtain ⟨rfl, rfl⟩ := pure_eq_ok.1 h
    exact ⟨ts, ht, .comparisonNumeral hx⟩
  | some op =>
    rw [hop] at h
    obtain ⟨t, s₂, hc, h⟩ := bind_eq_ok.1 h
    obtain ⟨rest, ha, rfl⟩ := consume_eq_ok.1 hc
    have ht' := ht.append (.one ha)
    obtain ⟨y, s₃, hy, h⟩ := bind_eq_ok.1 h
    obtain ⟨us, hu, hy⟩ := numeral_derives (hs.of_takes ht') hy
    obtain ⟨s₄, s₅, hh, hr⟩ := bind_eq_ok.1 h
    obtain ⟨rfl, rfl⟩ := here_eq_ok.1 hh
    obtain ⟨rfl, rfl⟩ := pure_eq_ok.1 hr
    rw [Stream.peek_eq ha] at hop
    refine ⟨ts ++ t :: us, ?_, .comparison hx hop hy⟩
    simpa using ht'.append hu

/-- A literal, and the arithmetic sign that was taken behind it. -/
theorem operand_derives {op? : Option String} (hs : s.Valued) (h : operand s = (.ok (n, op?), s')) :
    (op? = none ∧ ∃ ts, s.Takes ts s' ∧ Derives .literal ts n) ∨
      ∃ ts t op, op? = some op ∧ s.Takes (ts ++ [t]) s' ∧ Derives .literal ts n ∧ t.kind.arithmetic? = some op := by
  obtain ⟨x, s₁, hx, h⟩ := bind_eq_ok.1 h
  obtain ⟨ts, ht, hx⟩ := literal_derives hs hx
  obtain ⟨t, s₂, hp, h⟩ := bind_eq_ok.1 h
  obtain ⟨rfl, rfl⟩ := peek_eq_ok.1 hp
  cases hop : s₁.peek.kind.arithmetic? with
  | none =>
    rw [hop] at h
    obtain ⟨hn, rfl⟩ := pure_eq_ok.1 h
    obtain ⟨rfl, rfl⟩ := Prod.mk.inj hn
    exact .inl ⟨rfl, ts, ht, hx⟩
  | some op =>
    rw [hop] at h
    obtain ⟨t, s₂, hc, h⟩ := bind_eq_ok.1 h
    obtain ⟨rest, ha, rfl⟩ := consume_eq_ok.1 hc
    obtain ⟨hn, rfl⟩ := pure_eq_ok.1 h
    obtain ⟨rfl, rfl⟩ := Prod.mk.inj hn
    rw [Stream.peek_eq ha] at hop
    exact .inr ⟨ts, t, op, rfl, ht.append (.one ha), hx, hop⟩

/-- The induction is on the tokens ahead: the expression behind an arithmetic sign has fewer of them. -/
theorem expression_derives (hs : s.Valued) (h : expression s = (.ok n, s')) :
    ∃ ts, s.Takes ts s' ∧ Derives .expression ts n := by
  fun_induction expression s generalizing n s' with
  | case1 s _ =>
    obtain ⟨ts, ht, hd⟩ := unary_derives hs h
    exact ⟨ts, ht, .expressionUnary hd⟩
  | case2 s _ _ =>
    obtain ⟨ts, ht, hd⟩ := comparison_derives hs h
    exact ⟨ts, ht, .expressionComparison hd⟩
  | case3 | case5 => simp at h
  | case4 s _ _ _ left s₁ ho =>
    obtain ⟨rfl, rfl⟩ := by simpa using h
    obtain ⟨_, ts, ht, hd⟩ | ⟨_, _, _, hc, _⟩ := operand_derives hs ho
    · exact ⟨ts, ht, .expressionBinary (.binaryLiteral hd)⟩
    · cases hc
  | case6 s _ _ _ left op s₁ ho _ right s₂ he ih =>
    obtain ⟨rfl, rfl⟩ := by simpa using h
    obtain ⟨hc, _⟩ | ⟨ts, t, op, hc, ht, hx, hop⟩ := operand_derives hs ho
    · cases hc
    · cases hc
      obtain ⟨us, hu, hy⟩ := ih (hs.of_takes ht) he
      refine ⟨ts ++ t :: us, ?_, .expressionBinary (.binary hx hop hy)⟩
      simpa using ht.append hu
  | case7 => exact absurd h fail_ne_ok

theorem binary_derives (hs : s.Valued) (h : binary s = (.ok n, s')) :
    ∃ ts, s.Takes ts s' ∧ Derives .binary ts n := by
  obtain ⟨start, s₀, hst, h⟩ := bind_eq_ok.1 h
  obtain ⟨rfl, rfl⟩ := here_eq_ok.1 hst
  obtain ⟨⟨x, op?⟩, s₁, ho, h⟩ := bind_eq_ok.1 h
  obtain ⟨rfl, ts, ht, hx⟩ | ⟨ts, t, op, rfl, ht, hx, hop⟩ := operand_derives hs ho
  · obtain ⟨rfl, rfl⟩ := pure_eq_ok.1 h
    exact ⟨ts, ht, .binaryLiteral hx⟩
  · obtain ⟨y, s₂, hy, h⟩ := bind_eq_ok.1 h
    obtain ⟨us, hu, hy⟩ := expression_derives (hs.of_takes ht) hy
    obtain ⟨s₄, s₅, hh, hr⟩ := bind_eq_ok.1 h
    obtain ⟨rfl, rfl⟩ := here_eq_ok.1 hh
    obtain ⟨rfl, rfl⟩ := pure_eq_ok.1 hr
    refine ⟨ts ++ t :: us, ?_, .binary hx hop hy⟩
    simpa using ht.append hu

/-! ## Statements and programs -/

theorem declaration_derives (hs : s.Valued) (h : declaration s = (.ok n, s')) :
    ∃ ts, s.Takes ts s' ∧ Derives .declaration ts n := by
  obtain ⟨f, hp, rfl⟩ := spanned_eq_ok.1 h
  obtain ⟨i, s₁, ei, h⟩ := bind_eq_ok.1 hp
  obtain ⟨t, rest, ha, rfl, hi⟩ := symbol_derives ei
  obtain ⟨c, s₂, ec, h⟩ := bind_eq_ok.1 h
  obtain ⟨rest₂, ha₂, hc, rfl⟩ := expect_eq_ok.1 ec
  obtain ⟨q, s₃, eq, h⟩ := bind_eq_ok.1 h
  obtain ⟨rest₃, ha₃, hq, rfl⟩ := expect_eq_ok.1 eq
  have ht := Stream.Takes.cons ha (.cons ha₂ (.one ha₃))
  obtain ⟨x, s₄, ex, h⟩ := bind_eq_ok.1 h
  obtain ⟨us, hu, hx⟩ := expression_derives (hs.of_takes ht) ex
  obtain ⟨d, s₅, ed, h⟩ := bind_eq_ok.1 h
  obtain ⟨rest₅, ha₅, hd, rfl⟩ := expect_eq_ok.1 ed
  obtain ⟨rfl, rfl⟩ := pure_eq_ok.1 h
  exact ⟨_, ht.append (hu.append (.one ha₅)), .declaration hi hc hq hx hd⟩

theorem assignment_derives (hs : s.Valued) (h : assignment s = (.ok n, s')) :
    ∃ ts, s.Takes ts s' ∧ Derives .assignment ts n := by
  obtain ⟨f, hp, rfl⟩ := spanned_eq_ok.1 h
  obtain ⟨i, s₁, ei, h⟩ := bind_eq_ok.1 hp
  obtain ⟨t, rest, ha, rfl, hi⟩ := symbol_derives ei
  obtain ⟨q, s₂, eq, h⟩ := bind_eq_ok.1 h
  obtain ⟨rest₂, ha₂, hq, rfl⟩ := expect_eq_ok.1 eq
  have ht := Stream.Takes.cons ha (.one ha₂)
  obtain ⟨x, s₃, ex, h⟩ := bind_eq_ok.1 h
  obtain ⟨us, hu, hx⟩ := expression_derives (hs.of_takes ht) ex
  obtain ⟨d, s₄, ed, h⟩ := bind_eq_ok.1 h
  obtain ⟨rest₄, ha₄, hd, rfl⟩ := expect_eq_ok.1 ed
  obtain ⟨rfl, rfl⟩ := pure_eq_ok.1 h
  exact ⟨_, ht.append (hu.append (.one ha₄)), .assignment hi hq hx hd⟩

theorem pragma_derives (hs : s.Valued) (h : pragma s = (.ok n, s')) : ∃ ts, s.Takes ts s' ∧ Derives .pragma ts n := by
  obtain ⟨f, hp, rfl⟩ := spanned_eq_ok.1 h
  obtain ⟨b, s₁, eb, h⟩ := bind_eq_ok.1 hp
  obtain ⟨rest₁, ha₁, hb, rfl⟩ := expect_eq_ok.1 eb
  obtain ⟨t, s₂, en, h⟩ := bind_eq_ok.1 h
  obtain ⟨rest₂, ha₂, hn, rfl⟩ := expect_eq_ok.1 en
  obtain ⟨l, s₃, el, h⟩ := bind_eq_ok.1 h
  obtain ⟨rest₃, ha₃, hl, rfl⟩ := expect_eq_ok.1 el
  have ht := Stream.Takes.cons ha₁ (.cons ha₂ (.one ha₃))
  obtain ⟨x, s₄, ex, h⟩ := bind_eq_ok.1 h
  obtain ⟨us, hu, hx⟩ := numeral_derives (hs.of_takes ht) ex
  obtain ⟨r, s₅, er, h⟩ := bind_eq_ok.1 h
  obtain ⟨rest₅, ha₅, hr, rfl⟩ := expect_eq_ok.1 er
  obtain ⟨b', s₆, eb', h⟩ := bind_eq_ok.1 h
  obtain ⟨rest₆, ha₆, hb', rfl⟩ := expect_eq_ok.1 eb'
  obtain ⟨rfl, rfl⟩ := pure_eq_ok.1 h
  exact ⟨_, ht.append (hu.append (.cons ha₅ (.one ha₆))), .pragma hb hn hl hx hr hb'⟩

theorem statement_derives (hs : s.Valued) (h : statement s = (.ok n, s')) :
    ∃ ts, s.Takes ts s' ∧ Derives .statement ts n := by
  simp only [statement, bind_apply, peek_apply, peekNext_apply, ite_apply] at h
  split at h
  case isFalse => exact absurd h fail_ne_ok
  case isTrue =>
    split at h
    case isTrue =>
      obtain ⟨ts, ht, hd⟩ := declaration_derives hs h
      exact ⟨ts, ht, .statementDeclaration hd⟩
    case isFalse =>
      split at h
      case isTrue =>
        obtain ⟨ts, ht, hd⟩ := assignment_derives hs h
        exact ⟨ts, ht, .statementAssignment hd⟩
      case isFalse => exact absurd h fail_ne_ok

theorem statements_derives {xs : List Node} {sp : Option Span} (hs : s.Valued) (h : statements s = (.ok xs, s')) :
    ∃ ts, s.Takes ts s' ∧ Derives .block ts (.block xs sp) := by
  fun_induction statements s generalizing xs s' with
  | case1 s _ =>
    obtain ⟨rfl, rfl⟩ := by simpa using h
    exact ⟨[], .nil _, .blockNil⟩
  | case2 | case3 => simp at h
  | case4 s _ x s₁ hx _ xs s₂ hxs ih =>
    obtain ⟨rfl, rfl⟩ := by simpa using h
    obtain ⟨ts, ht, hx⟩ := statement_derives hs hx
    obtain ⟨us, hu, hxs⟩ := ih (hs.of_takes ht) hxs
    exact ⟨ts ++ us, ht.append hu, .blockCons hx hxs⟩

theorem block_derives (hs : s.Valued) (h : block s = (.ok n, s')) : ∃ ts, s.Takes ts s' ∧ Derives .block ts n := by
  obtain ⟨f, hp, rfl⟩ := spanned_eq_ok.1 h
  obtain ⟨xs, s₁, hxs, h⟩ := bind_eq_ok.1 hp
  obtain ⟨rfl, rfl⟩ := pure_eq_ok.1 h
  exact statements_derives hs hxs

theorem program_derives (hs : s.Valued) (h : program s = (.ok n, s')) :
    ∃ ts, s.Takes ts s' ∧ Derives .program ts n := by
  obtain ⟨f, hp, rfl⟩ := spanned_eq_ok.1 h
  obtain ⟨x, s₁, hx, h⟩ := bind_eq_ok.1 hp
  obtain ⟨rfl, rfl⟩ := pure_eq_ok.1 h
  obtain ⟨ts, ht, hd⟩ := block_derives hs hx
  exact ⟨ts, ht, .program hd⟩

end Parse

/-- **Soundness**: what the parser of an entry takes derives what it returns. -/
theorem Entry.parser_derives {s s' : Stream} {n : Node} (hs : s.Valued) :
    ∀ {e : Entry}, e.parser s = (.ok n, s') → ∃ ts, s.Takes ts s' ∧ Derives e ts n
  | .program, h => Parse.program_derives hs h
  | .block, h => Parse.block_derives hs h
  | .statement, h => Parse.statement_derives hs h
  | .declaration, h => Parse.declaration_derives hs h
  | .assignment, h => Parse.assignment_derives hs h
  | .pragma, h => Parse.pragma_derives hs h
  | .expression, h => Parse.expression_derives hs h
  | .binary, h => Parse.binary_derives hs h
  | .comparison, h => Parse.comparison_derives hs h
  | .unary, h => Parse.unary_derives hs h
  | .literal, h => Parse.literal_derives hs h
  | .symbol, h =>
    let ⟨t, _, ha, hs', hd⟩ := Parse.symbol_derives h
    ⟨[t], hs' ▸ .one ha, hd⟩
  | .numeral, h => Parse.numeral_derives hs h
  | .truth, h => Parse.truth_derives h

end FrontEnd
