import FrontEnd.Grammar.Statement
import FrontEnd.Proofs.Grammar.Derivation
import FrontEnd.Proofs.Grammar.Taking

/-!
# What is derivable is parsed

Choosing an alternative by the next two tokens never shuts out a derivation: where the tokens of a derivation stand in
front of one at which the entry ends (`Entry.EndsAt`), the entry's parser takes exactly them and builds the derived
tree, up to spans. One lemma for each rule of the grammar; **`Derives.parses`** collects them.
-/

namespace FrontEnd

/-- The kinds before which the parser of an entry does not read on. -/
def Entry.EndsAt : Entry → Kind → Prop
  | .comparison, k => k.comparison? = none
  | .binary, k | .expression, k => k.comparison? = none ∧ k.arithmetic? = none
  | .block, k | .program, k => k = .endOfFile
  | _, _ => True

/-- No sign is both arithmetic and a comparison. -/
theorem Kind.comparison?_of_arithmetic? {k : Kind} {op : String} (h : k.arithmetic? = some op) :
    k.comparison? = none := by
  cases k <;> simp_all [arithmetic?, comparison?]

/-- In front of a token at which `e` ends, the parser of `e` takes `ts` and builds `n`, up to spans. -/
def Entry.Parses (e : Entry) (ts : List Token) (n : Node) : Prop :=
  ∀ ⦃s s' : Stream⦄, s.Takes ts s' → e.EndsAt s'.peek.kind → ∃ n', e.parser s = (.ok n', s') ∧ n'.same n = true

namespace Parse

variable {t u : Token} {ts us : List Token} {n x y : Node} {op : String} {sp : Option Span}

/-! ## Literals -/

theorem parses_symbol (hk : t.kind = .symbol) : Entry.symbol.Parses [t] (.symbol t.text sp) := by
  intro s s' ht _
  obtain ⟨rest, ha, rfl⟩ := ht.of_one
  refine ⟨_, spanned_eq_ok.2 ⟨.symbol t.text, ?_, rfl⟩, by simp [Node.same]⟩
  rw [bind_of_ok (expect_eq_ok.2 ⟨rest, ha, hk, rfl⟩)]
  rfl

theorem parses_numeral {v : Int} (hk : t.kind = .numeric) (hv : t.value = some v) :
    Entry.numeral.Parses [t] (.numeral v sp) := by
  intro s s' ht _
  obtain ⟨rest, ha, rfl⟩ := ht.of_one
  have hval : valueOf t (s.taking t rest) = (.ok v, s.taking t rest) := by simp [valueOf, hv, pure_apply]
  refine ⟨_, spanned_eq_ok.2 ⟨.numeral v, ?_, rfl⟩, by simp [Node.same]⟩
  rw [bind_of_ok (expect_eq_ok.2 ⟨rest, ha, hk, rfl⟩), bind_of_ok hval]
  rfl

theorem parses_truth {b : Bool} (hw : t.isWord = true) (hb : truthValue? t.text = some b) :
    Entry.truth.Parses [t] (.truth b sp) := by
  intro s s' ht _
  obtain ⟨rest, ha, rfl⟩ := ht.of_one
  refine ⟨_, spanned_eq_ok.2 ⟨.truth b, ?_, rfl⟩, by simp [Node.same]⟩
  rw [bind_of_ok (peek_eq_ok.2 ⟨Stream.peek_eq ha, rfl⟩), if_pos hw, hb]
  dsimp only
  rw [bind_of_ok (consume_eq_ok.2 ⟨rest, ha, rfl⟩)]
  rfl

theorem parses_literal_numeral (hd : Derives .numeral ts n) (ih : Entry.numeral.Parses ts n) :
    Entry.literal.Parses ts n := by
  intro s s' ht _
  cases hd with
  | numeral hk _ =>
    obtain ⟨rest, ha, rfl⟩ := ht.of_one
    obtain ⟨n', hn, hsame⟩ := ih ht trivial
    refine ⟨n', ?_, hsame⟩
    simp only [Entry.parser, literal, bind_apply, peek_apply, Stream.peek_eq ha, hk, if_true]
    exact hn

theorem parses_literal_truth (hd : Derives .truth ts n) (ih : Entry.truth.Parses ts n) :
    Entry.literal.Parses ts n := by
  intro s s' ht _
  cases hd with
  | @truth t b sp hw hb =>
    obtain ⟨rest, ha, rfl⟩ := ht.of_one
    obtain ⟨n', hn, hsame⟩ := ih ht trivial
    refine ⟨n', ?_, hsame⟩
    have hk : t.kind ≠ .numeric := by
      intro hk
      simp [Token.isWord, hk] at hw
    have htw : t.isTruthWord = true := by simp [Token.isTruthWord, hw, hb]
    simp only [Entry.parser, literal, bind_apply, peek_apply, Stream.peek_eq ha, hk, if_false, htw, if_true]
    exact hn

theorem parses_literal_symbol (hd : Derives .symbol [t] n) (hb : truthValue? t.text = none)
    (ih : Entry.symbol.Parses [t] n) : Entry.literal.Parses [t] n := by
  intro s s' ht _
  cases hd with
  | symbol hk =>
    obtain ⟨rest, ha, rfl⟩ := ht.of_one
    obtain ⟨n', hn, hsame⟩ := ih ht trivial
    refine ⟨n', ?_, hsame⟩
    have htw : t.isTruthWord = false := by simp [Token.isTruthWord, hb]
    simp only [Entry.parser, literal, bind_apply, peek_apply, Stream.peek_eq ha, hk, htw]
    exact hn

/-! ## Expressions -/

/-- A literal is one token, and no sign. -/
theorem literal_token (hd : Derives .literal ts x) :
    ∃ t, ts = [t] ∧ t.isLiteral = true ∧ t.kind ≠ .minus ∧ t.kind ≠ .plus := by
  cases hd with
  | literalNumeral h =>
    cases h with
    | @numeral t _ _ hk _ => exact ⟨t, rfl, by simp [Token.isLiteral, hk], by simp [hk], by simp [hk]⟩
  | literalTruth h =>
    cases h with
    | @truth t _ _ hw hb =>
      have hk : t.kind = .symbol ∨ t.kind = .keyword := by simpa [Token.isWord] using hw
      refine ⟨t, rfl, by simp [Token.isLiteral, Token.isTruthWord, hw, hb], ?_, ?_⟩ <;>
        rcases hk with hk | hk <;> simp [hk]
  | @literalSymbol t _ h _ =>
    cases h with
    | symbol hk => exact ⟨t, rfl, by simp [Token.isLiteral, hk], by simp [hk], by simp [hk]⟩

/-- A sign that was read, and the literal behind it. -/
theorem unary_of_sign {s s₁ s' : Stream} {x' : Node} (hsign : unarySign s = (.ok op, s₁))
    (hx : Entry.literal.parser s₁ = (.ok x', s')) (hsame : x'.same x = true) :
    ∃ n', Entry.unary.parser s = (.ok n', s') ∧ n'.same (.unary op x sp) = true := by
  refine ⟨_, spanned_eq_ok.2 ⟨.unary op x', ?_, rfl⟩, by simp [Node.same, hsame]⟩
  rw [bind_of_ok hsign, bind_of_ok (p := literal) hx]
  rfl

theorem parses_minus (hk : t.kind = .minus) (hd : Derives .literal ts x) (ih : Entry.literal.Parses ts x) :
    Entry.unary.Parses (t :: ts) (.unary "-" x sp) := by
  intro s s' ht _
  obtain ⟨rest, ha, ht⟩ := ht.of_cons
  obtain ⟨x', hx, hsame⟩ := ih ht trivial
  obtain ⟨u, rfl, _, hu, _⟩ := literal_token hd
  obtain ⟨rest', ha', rfl⟩ := ht.of_one
  have hsign : unarySign s = (.ok "-", s.taking t rest) := by
    rw [unarySign, bind_of_ok (peek_eq_ok.2 ⟨Stream.peek_eq ha, rfl⟩), if_pos hk,
      bind_of_ok (consume_eq_ok.2 ⟨rest, ha, rfl⟩), bind_of_ok (peek_eq_ok.2 ⟨Stream.peek_eq ha', rfl⟩),
      if_neg fun h => hu h.1]
    rfl
  exact unary_of_sign hsign hx hsame

theorem parses_minusMinus (hk : t.kind = .minus) (hk' : u.kind = .minus) (hadj : u.start = t.stop)
    (ih : Entry.literal.Parses ts x) : Entry.unary.Parses (t :: u :: ts) (.unary "--" x sp) := by
  intro s s' ht _
  obtain ⟨rest, ha, ht⟩ := ht.of_cons
  obtain ⟨rest', ha', ht⟩ := ht.of_cons
  obtain ⟨x', hx, hsame⟩ := ih ht trivial
  have hsign : unarySign s = (.ok "--", (s.taking t rest).taking u rest') := by
    rw [unarySign, bind_of_ok (peek_eq_ok.2 ⟨Stream.peek_eq ha, rfl⟩), if_pos hk,
      bind_of_ok (consume_eq_ok.2 ⟨rest, ha, rfl⟩), bind_of_ok (peek_eq_ok.2 ⟨Stream.peek_eq ha', rfl⟩),
      if_pos ⟨hk', hadj⟩, bind_of_ok (consume_eq_ok.2 ⟨rest', ha', rfl⟩)]
    rfl
  exact unary_of_sign hsign hx hsame

theorem parses_plusPlus (hk : t.kind = .plus) (hk' : u.kind = .plus) (hadj : u.start = t.stop)
    (ih : Entry.literal.Parses ts x) : Entry.unary.Parses (t :: u :: ts) (.unary "++" x sp) := by
  intro s s' ht _
  obtain ⟨rest, ha, ht⟩ := ht.of_cons
  obtain ⟨rest', ha', ht⟩ := ht.of_cons
  obtain ⟨x', hx, hsame⟩ := ih ht trivial
  have hsign : unarySign s = (.ok "++", (s.taking t rest).taking u rest') := by
    rw [unarySign, bind_of_ok (peek_eq_ok.2 ⟨Stream.peek_eq ha, rfl⟩), if_neg (by simp [hk]), if_pos hk,
      bind_of_ok (consume_eq_ok.2 ⟨rest, ha, rfl⟩), bind_of_ok (peek_eq_ok.2 ⟨Stream.peek_eq ha', rfl⟩),
      if_neg (not_not_intro hk'), if_neg (not_not_intro hadj), bind_of_ok (consume_eq_ok.2 ⟨rest', ha', rfl⟩)]
    rfl
  exact unary_of_sign hsign hx hsame

theorem parses_comparison_numeral (ih : Entry.numeral.Parses ts n) : Entry.comparison.Parses ts n := by
  intro s s' ht hend
  obtain ⟨n', hn, hsame⟩ := ih ht trivial
  refine ⟨n', ?_, hsame⟩
  rw [Entry.parser, comparison, bind_of_ok (here_eq_ok.2 ⟨rfl, rfl⟩), bind_of_ok (p := numeral) hn,
    bind_of_ok (peek_eq_ok.2 ⟨rfl, rfl⟩), show s'.peek.kind.comparison? = none from hend]
  rfl

theorem parses_comparison (ihx : Entry.numeral.Parses ts x) (hop : t.kind.comparison? = some op)
    (ihy : Entry.numeral.Parses us y) : Entry.comparison.Parses (ts ++ t :: us) (.comparison x op y sp) := by
  intro s s' ht _
  obtain ⟨s₁, ht₁, ht⟩ := ht.split
  obtain ⟨rest, ha, ht⟩ := ht.of_cons
  obtain ⟨x', hx, hsx⟩ := ihx ht₁ trivial
  obtain ⟨y', hy, hsy⟩ := ihy ht trivial
  refine ⟨.comparison x' op y' (some (s.spanTo s')), ?_, by simp [Node.same, hsx, hsy]⟩
  rw [Entry.parser, comparison, bind_of_ok (here_eq_ok.2 ⟨rfl, rfl⟩), bind_of_ok (p := numeral) hx,
    bind_of_ok (peek_eq_ok.2 ⟨Stream.peek_eq ha, rfl⟩), hop]
  dsimp only
  rw [bind_of_ok (consume_eq_ok.2 ⟨rest, ha, rfl⟩), bind_of_ok (p := numeral) hy,
    bind_of_ok (here_eq_ok.2 ⟨rfl, rfl⟩)]
  rfl

theorem parses_binary_literal (ih : Entry.literal.Parses ts n) : Entry.binary.Parses ts n := by
  intro s s' ht hend
  obtain ⟨n', hn, hsame⟩ := ih ht trivial
  have hop : operand s = (.ok (n', none), s') := by
    rw [operand, bind_of_ok (p := literal) hn, bind_of_ok (peek_eq_ok.2 ⟨rfl, rfl⟩),
      show s'.peek.kind.arithmetic? = none from hend.2]
    rfl
  refine ⟨n', ?_, hsame⟩
  rw [Entry.parser, binary, bind_of_ok (here_eq_ok.2 ⟨rfl, rfl⟩), bind_of_ok hop]
  rfl

theorem parses_binary (ihx : Entry.literal.Parses ts x) (hop : t.kind.arithmetic? = some op)
    (ihy : Entry.expression.Parses us y) : Entry.binary.Parses (ts ++ t :: us) (.binary x op y sp) := by
  intro s s' ht hend
  obtain ⟨s₁, ht₁, ht⟩ := ht.split
  obtain ⟨rest, ha, ht⟩ := ht.of_cons
  obtain ⟨x', hx, hsx⟩ := ihx ht₁ trivial
  obtain ⟨y', hy, hsy⟩ := ihy ht hend
  have hop' : operand s = (.ok (x', some op), s₁.taking t rest) := by
    rw [operand, bind_of_ok (p := literal) hx, bind_of_ok (peek_eq_ok.2 ⟨Stream.peek_eq ha, rfl⟩), hop]
    dsimp only
    rw [bind_of_ok (consume_eq_ok.2 ⟨rest, ha, rfl⟩)]
    rfl
  refine ⟨.binary x' op y' (some (s.spanTo s')), ?_, by simp [Node.same, hsx, hsy]⟩
  rw [Entry.parser, binary, bind_of_ok (here_eq_ok.2 ⟨rfl, rfl⟩), bind_of_ok hop']
  dsimp only
  rw [bind_of_ok (p := expression) hy, bind_of_ok (here_eq_ok.2 ⟨rfl, rfl⟩)]
  rfl

/-! ## The choice between expressions -/

/-- A unary expression begins with a sign. -/
theorem expression_eq_unary {s : Stream} (h : s.peek.kind = .minus ∨ s.peek.kind = .plus) :
    expression s = unary s := by
  rw [expression_eq, bind_of_ok (peek_eq_ok.2 ⟨rfl, rfl⟩), bind_of_ok (peekNext_eq_ok.2 ⟨rfl, rfl⟩), if_pos h]

/-- A numeral and a comparison sign begin a comparison. -/
theorem expression_eq_comparison {s : Stream} (hk : s.peek.kind = .numeric)
    (hop : (s.look 1).kind.comparison?.isSome = true) : expression s = comparison s := by
  rw [expression_eq, bind_of_ok (peek_eq_ok.2 ⟨rfl, rfl⟩), bind_of_ok (peekNext_eq_ok.2 ⟨rfl, rfl⟩),
    if_neg (by simp [hk]), if_pos ⟨hk, hop⟩]

/-- A literal that no comparison sign follows begins a binary expression. -/
theorem expression_eq_binary {s : Stream} (hl : s.peek.isLiteral = true) (hm : s.peek.kind ≠ .minus)
    (hp : s.peek.kind ≠ .plus) (hop : (s.look 1).kind.comparison? = none) : expression s = binary s := by
  rw [expression_eq, bind_of_ok (peek_eq_ok.2 ⟨rfl, rfl⟩), bind_of_ok (peekNext_eq_ok.2 ⟨rfl, rfl⟩),
    if_neg (by simp [hm, hp]), if_neg (by simp [hop]), if_pos hl]

theorem parses_expression_unary (hd : Derives .unary ts n) (ih : Entry.unary.Parses ts n) :
    Entry.expression.Parses ts n := by
  intro s s' ht hend
  obtain ⟨t, us, rfl, hk⟩ : ∃ t us, ts = t :: us ∧ (t.kind = .minus ∨ t.kind = .plus) := by
    cases hd with
    | minus hk _ | minusMinus hk _ _ _ => exact ⟨_, _, rfl, .inl hk⟩
    | plusPlus hk _ _ _ => exact ⟨_, _, rfl, .inr hk⟩
  obtain ⟨rest, ha, _⟩ := ht.of_cons
  rw [Entry.parser, expression_eq_unary (by rwa [Stream.peek_eq ha])]
  exact ih ht trivial

theorem parses_expression_binary (hd : Derives .binary ts n) (ih : Entry.binary.Parses ts n) :
    Entry.expression.Parses ts n := by
  intro s s' ht hend
  -- the second token is an arithmetic sign, or else the one at which the expression ends
  obtain ⟨t, us, rfl, hl, hm, hp, hus⟩ : ∃ t us, ts = t :: us ∧ t.isLiteral = true ∧ t.kind ≠ .minus ∧
      t.kind ≠ .plus ∧ (us = [] ∨ ∃ u vs op, us = u :: vs ∧ u.kind.arithmetic? = some op) := by
    cases hd with
    | binaryLiteral h =>
      obtain ⟨t, rfl, hl, hm, hp⟩ := literal_token h
      exact ⟨t, [], rfl, hl, hm, hp, .inl rfl⟩
    | binary h hop _ =>
      obtain ⟨t, rfl, hl, hm, hp⟩ := literal_token h
      exact ⟨t, _, rfl, hl, hm, hp, .inr ⟨_, _, _, rfl, hop⟩⟩
  obtain ⟨rest, ha, ht'⟩ := ht.of_cons
  have hnext : (s.look 1).kind.comparison? = none := by
    rw [Stream.look_one_eq ha]
    rcases hus with rfl | ⟨u, vs, op, rfl, hop⟩
    · cases ht'
      exact hend.1
    · obtain ⟨rest', ha', _⟩ := ht'.of_cons
      rw [Stream.peek_eq ha']
      exact Kind.comparison?_of_arithmetic? hop
  rw [← Stream.peek_eq ha] at hl hm hp
  rw [Entry.parser, expression_eq_binary hl hm hp hnext]
  exact ih ht hend

theorem parses_expression_comparison (hd : Derives .comparison ts n) (ih : Entry.comparison.Parses ts n) :
    Entry.expression.Parses ts n := by
  cases hd with
  | comparisonNumeral h =>
    -- a numeral alone is read as a binary expression without a sign
    have hp : Entry.numeral.Parses ts n := by
      cases h with
      | numeral hk hv => exact parses_numeral hk hv
    exact parses_expression_binary (.binaryLiteral (.literalNumeral h))
      (parses_binary_literal (parses_literal_numeral h hp))
  | comparison hx hop _ =>
    intro s s' ht hend
    cases hx with
    | numeral hk _ =>
      obtain ⟨rest, ha, ht'⟩ := ht.of_cons
      obtain ⟨rest', ha', _⟩ := ht'.of_cons
      rw [Entry.parser, expression_eq_comparison (by rw [Stream.peek_eq ha, hk])
        (by rw [Stream.look_one_eq ha, Stream.peek_eq ha', hop]; rfl)]
      exact ih ht hend.1

/-! ## Statements and programs -/

variable {i : Node} {c q d : Token}

theorem parses_declaration (ihi : Entry.symbol.Parses ts i) (hc : c.kind = .colon) (hq : q.kind = .equals)
    (ihx : Entry.expression.Parses us x) (hd : d.kind = .dot) :
    Entry.declaration.Parses (ts ++ c :: q :: (us ++ [d])) (.declaration i x sp) := by
  intro s s' ht _
  obtain ⟨s₁, ht₁, ht⟩ := ht.split
  obtain ⟨rest₁, ha₁, ht⟩ := ht.of_cons
  obtain ⟨rest₂, ha₂, ht⟩ := ht.of_cons
  obtain ⟨s₂, ht₂, ht⟩ := ht.split
  obtain ⟨rest₃, ha₃, rfl⟩ := ht.of_one
  obtain ⟨i', hi, hsi⟩ := ihi ht₁ trivial
  obtain ⟨x', hx, hsx⟩ := ihx ht₂ (by rw [Stream.peek_eq ha₃, hd]; exact ⟨rfl, rfl⟩)
  refine ⟨_, spanned_eq_ok.2 ⟨.declaration i' x', ?_, rfl⟩, by simp [Node.same, hsi, hsx]⟩
  rw [bind_of_ok (p := symbol) hi, bind_of_ok (expect_eq_ok.2 ⟨rest₁, ha₁, hc, rfl⟩),
    bind_of_ok (expect_eq_ok.2 ⟨rest₂, ha₂, hq, rfl⟩), bind_of_ok (p := expression) hx,
    bind_of_ok (p := dot) (expect_eq_ok.2 ⟨rest₃, ha₃, hd, rfl⟩)]
  rfl

theorem parses_assignment (ihi : Entry.symbol.Parses ts i) (hq : q.kind = .equals)
    (ihx : Entry.expression.Parses us x) (hd : d.kind = .dot) :
    Entry.assignment.Parses (ts ++ q :: (us ++ [d])) (.assignment i x sp) := by
  intro s s' ht _
  obtain ⟨s₁, ht₁, ht⟩ := ht.split
  obtain ⟨rest₁, ha₁, ht⟩ := ht.of_cons
  obtain ⟨s₂, ht₂, ht⟩ := ht.split
  obtain ⟨rest₃, ha₃, rfl⟩ := ht.of_one
  obtain ⟨i', hi, hsi⟩ := ihi ht₁ trivial
  obtain ⟨x', hx, hsx⟩ := ihx ht₂ (by rw [Stream.peek_eq ha₃, hd]; exact ⟨rfl, rfl⟩)
  refine ⟨_, spanned_eq_ok.2 ⟨.assignment i' x', ?_, rfl⟩, by simp [Node.same, hsi, hsx]⟩
  rw [bind_of_ok (p := symbol) hi, bind_of_ok (expect_eq_ok.2 ⟨rest₁, ha₁, hq, rfl⟩),
    bind_of_ok (p := expression) hx, bind_of_ok (p := dot) (expect_eq_ok.2 ⟨rest₃, ha₃, hd, rfl⟩)]
  rfl

theorem parses_pragma {b name l r b' : Token} (hb : b.kind = .backtick) (hn : name.kind = .symbol)
    (hl : l.kind = .bracketLeft) (ih : Entry.numeral.Parses ts x) (hr : r.kind = .bracketRight)
    (hb' : b'.kind = .backtick) :
    Entry.pragma.Parses (b :: name :: l :: (ts ++ [r, b'])) (.pragma name.text x sp) := by
  intro s s' ht _
  obtain ⟨rest₁, ha₁, ht⟩ := ht.of_cons
  obtain ⟨rest₂, ha₂, ht⟩ := ht.of_cons
  obtain ⟨rest₃, ha₃, ht⟩ := ht.of_cons
  obtain ⟨s₁, ht₁, ht⟩ := ht.split
  obtain ⟨rest₄, ha₄, ht⟩ := ht.of_cons
  obtain ⟨rest₅, ha₅, rfl⟩ := ht.of_one
  obtain ⟨x', hx, hsx⟩ := ih ht₁ trivial
  refine ⟨_, spanned_eq_ok.2 ⟨.pragma name.text x', ?_, rfl⟩, by simp [Node.same, hsx]⟩
  rw [bind_of_ok (expect_eq_ok.2 ⟨rest₁, ha₁, hb, rfl⟩), bind_of_ok (expect_eq_ok.2 ⟨rest₂, ha₂, hn, rfl⟩),
    bind_of_ok (expect_eq_ok.2 ⟨rest₃, ha₃, hl, rfl⟩), bind_of_ok (p := numeral) hx,
    bind_of_ok (expect_eq_ok.2 ⟨rest₄, ha₄, hr, rfl⟩), bind_of_ok (expect_eq_ok.2 ⟨rest₅, ha₅, hb', rfl⟩)]
  rfl

/-- The token after the name chooses the statement. -/
theorem statement_eq {s : Stream} (hk : s.peek.kind = .symbol) :
    ((s.look 1).kind = .colon → statement s = declaration s) ∧
      ((s.look 1).kind = .equals → statement s = assignment s) := by
  constructor <;> intro hn <;> rw [statement, bind_of_ok (peek_eq_ok.2 ⟨rfl, rfl⟩),
    bind_of_ok (peekNext_eq_ok.2 ⟨rfl, rfl⟩), if_pos hk]
  · rw [if_pos hn]
  · rw [if_neg (by simp [hn]), if_pos hn]

theorem parses_statement_declaration (hd : Derives .declaration ts n) (ih : Entry.declaration.Parses ts n) :
    Entry.statement.Parses ts n := by
  intro s s' ht _
  cases hd with
  | declaration hi hc _ _ _ =>
    cases hi with
    | symbol hk =>
      obtain ⟨rest, ha, ht'⟩ := ht.of_cons
      obtain ⟨rest', ha', _⟩ := ht'.of_cons
      rw [Entry.parser, (statement_eq (by rw [Stream.peek_eq ha, hk])).1
        (by rw [Stream.look_one_eq ha, Stream.peek_eq ha', hc])]
      exact ih ht trivial

theorem parses_statement_assignment (hd : Derives .assignment ts n) (ih : Entry.assignment.Parses ts n) :
    Entry.statement.Parses ts n := by
  intro s s' ht _
  cases hd with
  | assignment hi hq _ _ =>
    cases hi with
    | symbol hk =>
      obtain ⟨rest, ha, ht'⟩ := ht.of_cons
      obtain ⟨rest', ha', _⟩ := ht'.of_cons
      rw [Entry.parser, (statement_eq (by rw [Stream.peek_eq ha, hk])).2
        (by rw [Stream.look_one_eq ha, Stream.peek_eq ha', hq])]
      exact ih ht trivial

theorem parses_block_nil : Entry.block.Parses [] (.block [] sp) := by
  intro s s' ht hend
  cases ht
  have hk : s.peek.kind = .endOfFile := hend
  refine ⟨_, spanned_eq_ok.2 ⟨.block [], ?_, rfl⟩, by simp [Node.same, Node.sameAll]⟩
  have hs : statements s = (.ok [], s) := by
    rw [statements_eq, bind_of_ok (peek_eq_ok.2 ⟨rfl, rfl⟩), if_pos (by simp [Token.isEnd, hk])]
    rfl
  rw [bind_of_ok hs]
  rfl

/-- A statement begins with its name, so no block ends there. -/
theorem statement_head (hd : Derives .statement ts n) : ∃ t us, ts = t :: us ∧ t.kind = .symbol := by
  cases hd with
  | statementDeclaration h =>
    cases h with
    | declaration hi _ _ _ _ =>
      cases hi with
      | symbol hk => exact ⟨_, _, rfl, hk⟩
  | statementAssignment h =>
    cases h with
    | assignment hi _ _ _ =>
      cases hi with
      | symbol hk => exact ⟨_, _, rfl, hk⟩

theorem parses_block_cons {xs : List Node} {sp' : Option Span} (hd : Derives .statement ts x)
    (ihx : Entry.statement.Parses ts x) (ihxs : Entry.block.Parses us (.block xs sp)) :
    Entry.block.Parses (ts ++ us) (.block (x :: xs) sp') := by
  intro s s' ht hend
  obtain ⟨s₁, ht₁, ht₂⟩ := ht.split
  obtain ⟨x', hx, hsx⟩ := ihx ht₁ trivial
  obtain ⟨b, hb, hsb⟩ := ihxs ht₂ hend
  obtain ⟨f, hf, rfl⟩ := spanned_eq_ok.1 hb
  obtain ⟨xs', s₂, hxs, hf⟩ := bind_eq_ok.1 hf
  obtain ⟨rfl, rfl⟩ := pure_eq_ok.1 hf
  obtain ⟨t, vs, rfl, hk⟩ := statement_head hd
  obtain ⟨rest, ha, _⟩ := ht₁.of_cons
  have hs : statements s = (.ok (x' :: xs'), s₂) := by
    rw [statements_eq, bind_of_ok (peek_eq_ok.2 ⟨Stream.peek_eq ha, rfl⟩), if_neg (by simp [Token.isEnd, hk]),
      bind_of_ok (p := statement) hx, bind_of_ok hxs]
    rfl
  refine ⟨_, spanned_eq_ok.2 ⟨.block (x' :: xs'), ?_, rfl⟩, ?_⟩
  · rw [bind_of_ok hs]
    rfl
  · rw [Node.same] at hsb
    simp [Node.same, Node.sameAll, hsx, hsb]

theorem parses_program (ih : Entry.block.Parses ts x) : Entry.program.Parses ts (.program x sp) := by
  intro s s' ht hend
  obtain ⟨x', hx, hsame⟩ := ih ht hend
  refine ⟨_, spanned_eq_ok.2 ⟨.program x', ?_, rfl⟩, by simp [Node.same, hsame]⟩
  rw [bind_of_ok (p := block) hx]
  rfl

end Parse

open Parse in
/-- **Completeness**: the parser of an entry takes the tokens of a derivation and builds its tree. -/
theorem Derives.parses {e : Entry} {ts : List Token} {n : Node} (h : Derives e ts n) : e.Parses ts n := by
  induction h with
  | symbol hk => exact parses_symbol hk
  | numeral hk hv => exact parses_numeral hk hv
  | truth hw hb => exact parses_truth hw hb
  | literalNumeral hd ih => exact parses_literal_numeral hd ih
  | literalTruth hd ih => exact parses_literal_truth hd ih
  | literalSymbol hd hb ih => exact parses_literal_symbol hd hb ih
  | minus hk hd ih => exact parses_minus hk hd ih
  | minusMinus hk hk' hadj _ ih => exact parses_minusMinus hk hk' hadj ih
  | plusPlus hk hk' hadj _ ih => exact parses_plusPlus hk hk' hadj ih
  | comparisonNumeral _ ih => exact parses_comparison_numeral ih
  | comparison _ hop _ ihx ihy => exact parses_comparison ihx hop ihy
  | binaryLiteral _ ih => exact parses_binary_literal ih
  | binary _ hop _ ihx ihy => exact parses_binary ihx hop ihy
  | expressionUnary hd ih => exact parses_expression_unary hd ih
  | expressionComparison hd ih => exact parses_expression_comparison hd ih
  | expressionBinary hd ih => exact parses_expression_binary hd ih
  | declaration _ hc hq _ hd ihi ihx => exact parses_declaration ihi hc hq ihx hd
  | assignment _ hq _ hd ihi ihx => exact parses_assignment ihi hq ihx hd
  | pragma hb hn hl _ hr hb' ih => exact parses_pragma hb hn hl ih hr hb'
  | statementDeclaration hd ih => exact parses_statement_declaration hd ih
  | statementAssignment hd ih => exact parses_statement_assignment hd ih
  | blockNil => exact parses_block_nil
  | blockCons hd _ ihx ihxs => exact parses_block_cons hd ihx ihxs
  | program _ ih => exact parses_program ih

end FrontEnd
