import FrontEnd.Proofs.Grammar.Calling
import FrontEnd.Proofs.Grammar.Reserved
import FrontEnd.Proofs.Session.Lookahead

/-!
# Tests and the productions they commit to

Statements, expressions and literals are productions that choose: by a test of the next two tokens they commit to one
other production, or refuse in their own name (`Parse.Chooses`). A fault that says that no form of a production fits is
raised by that very production, to which a chain of calls leads (`Parse.exists_raises`, `Parse.Raises.mem_own`). So the
faults that the tests rule out can be told by who may call whom, and **`Parse.tests_agree`** says which these are.
-/

namespace FrontEnd

/-- The names under which the entry itself says that none of its forms fits. -/
def Entry.own : Entry → List String
  | statement => ["statement"]
  | expression => ["expression"]
  | unary => ["unary operator", "unary expression"]
  | literal => ["literal"]
  | truth => ["boolean literal"]
  | _ => []

namespace Parse

variable {α β : Type} {e e₁ e' : Entry} {s s' s₁ s₂ : Stream} {r : Refusal} {own : List String} {name : String}
  {t : Token} {forms : List String} {k : Kind}

/-! ## Names of faults -/

/-- Where `p` says at `s` that no form of a production fits, the production has one of the names. -/
def Names (own : List String) (p : Parse α) (s : Stream) : Prop :=
  ∀ name t forms s', p s = (.error (.fault (.noProduction name t forms)), s') → name ∈ own

theorem names_of_ok {p : Parse α} {a : α} (h : p s = (.ok a, s')) : Names own p s := by
  intro name t forms s'' hr
  simp [h] at hr

theorem names_pure (a : α) : Names own (pure a) s :=
  names_of_ok rfl

theorem names_fail (h : name ∈ own) : Names own (fail (.noProduction name t forms) : Parse α) s := by
  intro name' t' forms' s' hr
  simp only [fail, Prod.mk.injEq, Except.error.injEq, Refusal.fault.injEq, SyntaxFault.noProduction.injEq] at hr
  rwa [← hr.1.1]

theorem names_mismatch : Names own (fail (.mismatch k t) : Parse α) s := by
  intro name t' forms s' hr
  unfold fail SyntaxFault.mismatch at hr
  split at hr <;> simp at hr

theorem names_consume : Names own consume s := by
  intro name t forms s' hr
  unfold consume at hr
  split at hr <;> simp at hr

theorem Names.bind {p : Parse α} {f : α → Parse β} (hp : Names own p s)
    (hf : ∀ {a s'}, p s = (.ok a, s') → Names own (f a) s') : Names own (p >>= f) s := by
  intro name t forms s' hr
  obtain hr | ⟨a, s₁, ha, hr⟩ := bind_eq_fault hr
  · exact hp _ _ _ _ hr
  · exact hf ha _ _ _ _ hr

theorem names_peek {f : Token → Parse β} (h : Names own (f s.peek) s) : Names own (peek >>= f) s := h

theorem names_here {f : Stream → Parse β} (h : Names own (f s) s) : Names own (here >>= f) s := h

theorem Names.ite {c : Prop} [Decidable c] {p q : Parse α} (hp : c → Names own p s) (hq : ¬ c → Names own q s) :
    Names own (if c then p else q) s := by
  split
  · next h => exact hp h
  · next h => exact hq h

theorem names_expect : Names own (expect k) s :=
  names_peek (.ite (fun _ => names_consume) fun _ => names_mismatch)

theorem Names.spanned {p : Parse (Option Span → Node)} (hp : Names own p s) : Names own (spanned p) s :=
  fun _ _ _ _ hr => hp _ _ _ _ (spanned_eq_fault hr)

theorem names_valueOf (u : Token) : Names own (valueOf u) s := by
  intro name t forms s' hr
  rw [valueOf_apply] at hr
  exact absurd (Prod.mk.inj hr).1 reading_ne_fault

/-- A sign that is there is refused only for what follows it. -/
theorem names_unarySign (hop : "unary operator" ∈ own)
    (hnone : ¬ (s.peek.kind = .minus ∨ s.peek.kind = .plus) → "unary expression" ∈ own) : Names own unarySign s := by
  refine names_peek (.ite (fun _ => ?_) fun hm => .ite (fun _ => ?_) fun hp => ?_)
  · exact names_consume.bind fun _ => names_peek (.ite (fun _ => names_consume.bind fun _ => names_pure _) fun _ =>
      names_pure _)
  · exact names_consume.bind fun _ => names_peek (.ite (fun _ => names_mismatch) fun _ =>
      .ite (fun _ => names_fail hop) fun _ => names_consume.bind fun _ => names_pure _)
  · exact names_fail (hnone fun hk => hk.elim hm hp)

theorem names_truth (h : "boolean literal" ∈ own) : Names own truth s := by
  refine (names_peek (.ite (fun _ => ?_) fun _ => names_mismatch)).spanned
  split
  · exact names_consume.bind fun _ => names_pure _
  · exact names_fail h

/-! ## Productions that choose -/

/-- The parser of the entry does nothing but choose: it calls one other production and answers as that one does, or it
refuses at once, in its own name. -/
def Chooses (e : Entry) (name : String) (s : Stream) : Prop :=
  (∃ e', Calls e s e' s ∧ e.parser s = e'.parser s) ∨
    ∃ t forms, e.parser s = (.error (.fault (.noProduction name t forms)), s)

theorem statement_chooses (s : Stream) : Chooses .statement "statement" s := by
  have hs : Entry.statement.parser s = statement s := rfl
  by_cases hk : s.peek.kind = .symbol
  · by_cases hc : (s.look 1).kind = .colon
    · exact .inl ⟨.declaration, .declaration hk hc, (statement_eq hk).1 hc⟩
    by_cases hq : (s.look 1).kind = .equals
    · exact .inl ⟨.assignment, .assignment hk hq, (statement_eq hk).2 hq⟩
    · rw [Chooses, hs, statement, bind_of_ok (peek_eq_ok.2 ⟨rfl, rfl⟩), bind_of_ok (peekNext_eq_ok.2 ⟨rfl, rfl⟩),
        if_pos hk, if_neg hc, if_neg hq]
      exact .inr ⟨_, _, rfl⟩
  · rw [Chooses, hs, statement, bind_of_ok (peek_eq_ok.2 ⟨rfl, rfl⟩), bind_of_ok (peekNext_eq_ok.2 ⟨rfl, rfl⟩),
      if_neg hk]
    exact .inr ⟨_, _, rfl⟩

theorem expression_chooses (s : Stream) : Chooses .expression "expression" s := by
  by_cases hu : s.peek.kind = .minus ∨ s.peek.kind = .plus
  · exact .inl ⟨.unary, .unary hu, expression_eq_unary hu⟩
  by_cases hc : s.peek.kind = .numeric ∧ (s.look 1).kind.comparison?.isSome = true
  · exact .inl ⟨.comparison, .comparison hc.1 hc.2, expression_eq_comparison hc.1 hc.2⟩
  cases hl : s.peek.isLiteral with
  | true => exact .inl ⟨.binary, .binary hu hc hl, expression_eq_binary_of hu hc hl⟩
  | false => exact .inr ⟨_, _, expression_eq_fail hu hl⟩

theorem literal_chooses (s : Stream) : Chooses .literal "literal" s := by
  rw [Chooses, show Entry.literal.parser s = literal s from rfl, literal, bind_of_ok (peek_eq_ok.2 ⟨rfl, rfl⟩)]
  by_cases hn : s.peek.kind = .numeric
  · rw [if_pos hn]
    exact .inl ⟨.numeral, .numeral hn, rfl⟩
  by_cases hw : s.peek.isTruthWord = true
  · rw [if_neg hn, if_pos hw]
    exact .inl ⟨.truth, .truth hn hw, rfl⟩
  by_cases hk : s.peek.kind = .symbol
  · rw [if_neg hn, if_neg hw, if_pos hk]
    exact .inl ⟨.symbol, .symbol hn (by simpa using hw) hk, rfl⟩
  · rw [if_neg hn, if_neg hw, if_neg hk]
    exact .inr ⟨_, _, rfl⟩

/-! ## Who raises a fault -/

/-- The parser of the entry refuses although every production that it calls succeeds. -/
structure Raises (e : Entry) (s : Stream) (r : Refusal) (s' : Stream) : Prop where
  refuses : e.parser s = (.error r, s')
  calls : ∀ {e₁ s₁}, Calls e s e₁ s₁ → ∃ n s₂, e₁.parser s₁ = (.ok n, s₂)

/-- **Every refusal is raised by one production**, to which a chain of calls leads. The induction follows a call that
was refused, as long as there is one. -/
theorem exists_raises (h : e.parser s = (.error r, s')) : ∃ k e₁ s₁, Nested k e s e₁ s₁ ∧ Raises e₁ s₁ r s' := by
  induction hw : s.ahead.length + e.rank using Nat.strongRecOn generalizing e s with
  | ind N ih =>
    subst hw
    by_cases hcalls : ∃ e₁ s₁ r₁ s₂, Calls e s e₁ s₁ ∧ e₁.parser s₁ = (.error r₁, s₂)
    · obtain ⟨e₁, s₁, r₁, s₂, hc, hr₁⟩ := hcalls
      -- what was refused there went up unchanged, so it is the refusal at hand
      obtain ⟨hr, rfl⟩ := Prod.mk.inj ((hc.refusal hr₁).symm.trans h)
      obtain rfl := Except.error.inj hr
      obtain ⟨k, e₂, s₃, hchain, hraises⟩ := ih _ hc.weight_lt hr₁ rfl
      exact ⟨k + 1, e₂, s₃, .call hc hchain, hraises⟩
    · refine ⟨0, e, s, .refl e s, h, fun {e₁ s₁} hc => ?_⟩
      cases hs₁ : e₁.parser s₁ with
      | mk answer s₂ =>
        cases answer with
        | ok n => exact ⟨n, s₂, rfl⟩
        | error r₁ => exact absurd ⟨e₁, s₁, r₁, s₂, hc, hs₁⟩ hcalls

namespace Raises

/-- The productions that are called say nothing. -/
theorem names (h : Raises e s r s') (hc : Calls e s e₁ s₁) : Names own e₁.parser s₁ := by
  obtain ⟨n, s₂, hn⟩ := h.calls hc
  exact names_of_ok hn

theorem of_chooses {own : String} (h : Raises e s (.fault (.noProduction name t forms)) s') (hc : Chooses e own s) :
    name = own ∧ s' = s := by
  rcases hc with ⟨e', hcall, heq⟩ | ⟨u, forms', heq⟩
  · obtain ⟨n, s₂, hn⟩ := h.calls hcall
    have hr := h.refuses
    rw [heq, hn] at hr
    cases hr
  · have := heq.symm.trans h.refuses
    simp only [Prod.mk.injEq, Except.error.injEq, Refusal.fault.injEq, SyntaxFault.noProduction.injEq] at this
    exact ⟨this.1.1.symm, this.2.symm⟩

theorem names_chosen {own : String} (h : Raises e s r s') (hc : Chooses e own s) : Names [own] e.parser s :=
  fun _ _ _ _ hr => List.mem_singleton.2 (of_chooses ⟨hr, h.calls⟩ hc).1

theorem names_unary (h : Raises .unary s r s') (hop : "unary operator" ∈ own)
    (hnone : ¬ (s.peek.kind = .minus ∨ s.peek.kind = .plus) → "unary expression" ∈ own) : Names own unary s :=
  ((names_unarySign hop hnone).bind fun hs => (h.names (.operand hs)).bind fun _ => names_pure _).spanned

theorem names_block (h : Raises .block s r s') : Names own block s := by
  obtain ⟨xs, s₁, hturns, hend | ⟨hs, r', s₂, hr⟩⟩ := exists_turns s
  · exact (names_of_ok (hturns.statements_of_end hend) |>.bind fun _ => names_pure _).spanned
  · obtain ⟨n, s₃, hn⟩ := h.calls (.statement hturns hs)
    cases hn.symm.trans hr

/-- **A fault that no form fits names the production that raised it.** -/
theorem mem_own (h : Raises e s (.fault (.noProduction name t forms)) s') : name ∈ e.own := by
  suffices hn : Names e.own e.parser s from hn _ _ _ _ h.refuses
  cases e with
  | statement => exact h.names_chosen (statement_chooses s)
  | expression => exact h.names_chosen (expression_chooses s)
  | literal => exact h.names_chosen (literal_chooses s)
  | program => exact ((h.names .body).bind fun _ => names_pure _).spanned
  | block => exact h.names_block
  | declaration =>
    refine Names.spanned ((h.names .declaredName).bind fun hname => names_expect.bind fun hc =>
      names_expect.bind fun hq => ?_)
    exact (h.names (.declaredValue hname hc hq)).bind fun _ => names_expect.bind fun _ => names_pure _
  | assignment =>
    refine Names.spanned ((h.names .assignedName).bind fun hname => names_expect.bind fun hq => ?_)
    exact (h.names (.assignedValue hname hq)).bind fun _ => names_expect.bind fun _ => names_pure _
  | pragma =>
    refine Names.spanned (names_expect.bind fun hb => names_expect.bind fun hn => names_expect.bind fun hl => ?_)
    exact (h.names (.argument hb hn hl)).bind fun _ => names_expect.bind fun _ => names_expect.bind fun _ =>
      names_pure _
  | binary =>
    refine names_here (Names.bind ?_ fun {x s₁} hx => ?_)
    · refine (h.names .left).bind fun {_ s₁} _ => names_peek ?_
      cases s₁.peek.kind.arithmetic? with
      | none => exact names_pure _
      | some op => exact names_consume.bind fun _ => names_pure _
    · obtain ⟨left, op?⟩ := x
      cases op? with
      | none => exact names_pure _
      | some op =>
        obtain ⟨s₂, t, hleft, hop, ht⟩ := operand_eq_sign hx
        exact (h.names (.right hleft hop ht)).bind fun _ => names_here (names_pure _)
  | comparison =>
    refine names_here ((h.names .compared).bind fun {x s₁} hx => names_peek ?_)
    cases hop : s₁.peek.kind.comparison? with
    | none => exact names_pure _
    | some op =>
      exact names_consume.bind fun ht => (h.names (.comparedWith hx hop ht)).bind fun _ => names_here (names_pure _)
  | unary => exact h.names_unary (by simp [Entry.own]) (fun _ => by simp [Entry.own])
  | symbol => exact (names_expect.bind fun _ => names_pure _).spanned
  | numeral => exact (names_expect.bind fun {u _} _ => (names_valueOf u).bind fun _ => names_pure _).spanned
  | truth => exact names_truth (by simp [Entry.own])

end Raises

theorem entry_of_literal (h : "literal" ∈ e.own) : e = .literal := by
  cases e <;> simp [Entry.own] at h ⊢

theorem entry_of_unary (h : "unary expression" ∈ e.own) : e = .unary := by
  cases e <;> simp [Entry.own] at h ⊢

/-! ## Tests and the productions behind them -/

/-- Tokens of the two kinds can be taken, one after the other. -/
def Opens (k k' : Kind) (s : Stream) : Prop :=
  ∃ t u, expect k s = (.ok t, s.skip 1) ∧ expect k' (s.skip 1) = (.ok u, s.skip 2)

theorem opens_of_kinds {k k' : Kind} (hf : s.final.isEnd = true) (hk : s.peek.kind = k) (hk' : (s.look 1).kind = k')
    (h : k ≠ .endOfFile) (h' : k' ≠ .endOfFile) : Opens k k' s := by
  have hsecond := expect_apply (s := s.skip 1) (by simpa using hf) (by simpa [Stream.peek_skip] using hk') h'
  rw [Stream.skip_skip] at hsecond
  exact ⟨_, _, expect_apply hf hk h, hsecond⟩

/-- A comparison has taken a number and a sign and can only be the comparison of this number by this sign. -/
def Compares (s : Stream) : Prop :=
  ∃ x t op, numeral s = (.ok x, s.skip 1) ∧ (s.skip 1).peek.kind.comparison? = some op ∧
    consume (s.skip 1) = (.ok t, s.skip 2) ∧ (s.skip 2).Onward (comparison s).2 ∧
    ∀ n s', comparison s = (.ok n, s') → ∃ y span, n = .comparison x op y span

theorem compares_of_kinds (hf : s.final.isEnd = true) (hv : s.Valued) (hk : s.peek.kind = .numeric)
    (hop : (s.look 1).kind.comparison?.isSome = true) : Compares s := by
  obtain ⟨x, hx⟩ := (numeral_onward hf hk).resolve_right fun ⟨m, s', h⟩ => fair_numeral s hv m s' h
  obtain ⟨op, hop⟩ := Option.isSome_iff_exists.1 hop
  rw [← Stream.peek_skip] at hop
  have ht := consume_apply (s := s.skip 1) (by simpa using hf) (isEnd_of_comparison hop)
  rw [Stream.skip_skip] at ht
  have heq : comparison s = (numeral >>= fun y => here >>= fun s' =>
      pure (.comparison x op y (some (s.spanTo s')))) (s.skip 2) := by
    rw [comparison, bind_of_ok (here_eq_ok.2 ⟨rfl, rfl⟩), bind_of_ok hx, bind_of_ok (peek_eq_ok.2 ⟨rfl, rfl⟩), hop]
    exact bind_of_ok ht
  refine ⟨x, _, op, hx, hop, ht, ?_, ?_⟩
  · rw [heq]
    exact moves_numeral.bind (fun _ => moves_here.bind fun _ => moves_pure _) _
  · intro n s' hn
    rw [heq] at hn
    obtain ⟨y, s₁, -, hn⟩ := bind_eq_ok.1 hn
    obtain ⟨s₂, s₃, -, hn⟩ := bind_eq_ok.1 hn
    obtain ⟨rfl, -⟩ := pure_eq_ok.1 hn
    exact ⟨y, _, rfl⟩

theorem literal_of_isLiteral (hf : s.final.isEnd = true) (hv : s.Valued) (h : s.peek.isLiteral = true) :
    ∃ x, literal s = (.ok x, s.skip 1) :=
  (literal_onward hf h).resolve_right fun ⟨m, s', hm⟩ => fair_literal s hv m s' hm

/-- No other production calls a unary expression where there is no sign. -/
theorem unary_fault_ne (he : e ≠ .unary) :
    e.parser s ≠ (.error (.fault (.noProduction "unary expression" t forms)), s') := by
  intro h
  obtain ⟨k, e₁, s₁, hchain, hraises⟩ := exists_raises h
  obtain rfl := entry_of_unary hraises.mem_own
  rcases hchain.eq_or_last with ⟨rfl, -⟩ | ⟨j, e₂, s₂, -, hlast⟩
  · exact he rfl
  · cases hlast with
    | unary hk =>
      -- with a sign there, the only name left is that of the sign
      have hnames : Names ["unary operator"] unary s₁ := hraises.names_unary (by simp) (fun hno => absurd hk hno)
      have hmem := hnames _ _ _ _ hraises.refuses
      simp at hmem

/-- Where no literal fits, it was asked for behind the sign of a unary expression, or the caller asked for it. -/
theorem literal_fault_origin (hf : s.final.isEnd = true) (hv : s.Valued)
    (h : e.parser s = (.error (.fault (.noProduction "literal" t forms)), s')) :
    (e = .literal ∨ e = .binary) ∧ s' = s ∨ ∃ k s₁, Nested k e s .unary s₁ ∧ Calls .unary s₁ .literal s' := by
  obtain ⟨k, e₁, s₁, hchain, hraises⟩ := exists_raises h
  obtain rfl := entry_of_literal hraises.mem_own
  obtain ⟨-, rfl⟩ := hraises.of_chooses (literal_chooses s₁)
  rcases hchain.eq_or_last with ⟨rfl, rfl⟩ | ⟨j, e₂, s₂, hchain', hlast⟩
  · exact .inl ⟨.inl rfl, rfl⟩
  cases hlast with
  | operand hop => exact .inr ⟨j, s₂, hchain', .operand hop⟩
  | left =>
    rcases hchain'.eq_or_last with ⟨rfl, rfl⟩ | ⟨i, e₃, s₃, -, hlast'⟩
    · exact .inl ⟨.inr rfl, rfl⟩
    · cases hlast' with
      | binary _ _ hl =>
        -- an expression has seen the literal before it calls for one
        obtain ⟨x, hx⟩ := literal_of_isLiteral (by rwa [hchain.onward.final_eq]) (hv.onward hchain.onward) hl
        cases hx.symm.trans hraises.refuses

/-- At this place of a buffer, every test agrees with the production that it commits to. -/
structure Committed (s : Stream) : Prop where
  /-- The tests leave no other way: a production that chooses answers as the one that it calls, or refuses at once. -/
  chooses : Chooses .statement "statement" s ∧ Chooses .expression "expression" s ∧ Chooses .literal "literal" s
  /-- A statement that calls a declaration has a name and a colon to offer. -/
  declaration : ∀ s', Calls .statement s .declaration s' → Opens .symbol .colon s'
  /-- A statement that calls an assignment has a name and an equals sign to offer. -/
  assignment : ∀ s', Calls .statement s .assignment s' → Opens .symbol .equals s'
  /-- A comparison that an expression calls for is one, and never a number alone. -/
  comparison : ∀ s', Calls .expression s .comparison s' → Compares s'
  /-- A binary expression that an expression calls has the literal that it begins with. -/
  binary : ∀ s', Calls .expression s .binary s' → ∃ x, Parse.literal s' = (.ok x, s'.skip 1)
  /-- A unary expression that an expression calls has a sign. -/
  unary : ∀ s', Calls .expression s .unary s' →
    ∀ t forms s'', Parse.unary s' ≠ (.error (.fault (.noProduction "unary expression" t forms)), s'')
  /-- Only the entry for unary expressions itself can be refused for the want of a sign. -/
  sign : ∀ e : Entry, e ≠ .unary →
    ∀ t forms s', e.parser s ≠ (.error (.fault (.noProduction "unary expression" t forms)), s')
  /-- A literal is read of a token exactly if the token can stand as one. -/
  literal : (∃ x s', Parse.literal s = (.ok x, s')) ↔ s.peek.isLiteral = true
  /-- That no literal fits is said of the operand of a unary expression, or by the entries for literals and binary
  expressions about the token that they begin at. -/
  origin : ∀ (e : Entry) t forms s', e.parser s = (.error (.fault (.noProduction "literal" t forms)), s') →
    (e = .literal ∨ e = .binary) ∧ s' = s ∨ ∃ k s₁, Nested k e s .unary s₁ ∧ Calls .unary s₁ .literal s'

/-- **Every test agrees with the production that it commits to**, at every place of every buffer whose numerals carry
their values. -/
theorem tests_agree {tokens : List Token} (hvalues : ∀ t ∈ tokens, t.kind = .numeric → ∃ v, t.value = some v)
    (n : Nat) : Committed ((Stream.ofTokens tokens).skip n) := by
  generalize hs : (Stream.ofTokens tokens).skip n = s
  have hf : s.final.isEnd = true := by rw [← hs, Stream.final_skip, Stream.final_ofTokens_isEnd]
  have hv : s.Valued := hs ▸ (Stream.valued_ofTokens hvalues).onward (.skip _ n)
  refine ⟨⟨statement_chooses s, expression_chooses s, literal_chooses s⟩, ?_, ?_, ?_, ?_, ?_, ?_, ?_, ?_⟩
  · intro s' hc
    cases hc with
    | declaration hk hn => exact opens_of_kinds hf hk hn (by decide) (by decide)
  · intro s' hc
    cases hc with
    | assignment hk hn => exact opens_of_kinds hf hk hn (by decide) (by decide)
  · intro s' hc
    cases hc with
    | comparison hk hop => exact compares_of_kinds hf hv hk hop
  · intro s' hc
    cases hc with
    | binary _ _ hl => exact literal_of_isLiteral hf hv hl
  · intro s' hc t forms s'' h
    exact unary_fault_ne (e := .expression) nofun (hc.refusal h)
  · exact fun e he t forms s' => unary_fault_ne he
  · refine ⟨fun ⟨x, s', hx⟩ => literal_of_ok hx, fun hl => ?_⟩
    obtain ⟨x, hx⟩ := literal_of_isLiteral hf hv hl
    exact ⟨x, _, hx⟩
  · exact fun e t forms s' => literal_fault_origin hf hv

/-- A numeral without a text before a comparison sign, a reserved truth value before an arithmetic sign, and behind that
a unary expression whose operand is an end of input in the middle of the buffer. -/
theorem tests_agree_operand :
    let here : Location := ⟨"", 1, 1, 0⟩
    let seven : Token := ⟨.numeric, "", 0, 1, here, some 7⟩
    let yes : Token := ⟨.keyword, "true", 0, 1, here, none⟩
    let sign (k : Kind) : Token := ⟨k, "?", 0, 0, here, none⟩
    let tokens := [seven, sign .lessEqual, yes, sign .times, sign .minus, sign .endOfFile, seven]
    let place := (Stream.ofTokens tokens).skip
    (∀ t ∈ tokens, t.kind = .numeric → ∃ v, t.value = some v) ∧ Compares (place 0) ∧
      (∃ x, literal (place 2) = (.ok x, place 3)) ∧
      ∃ k s, Nested k .expression (place 2) .unary s ∧ Calls .unary s .literal (place 5) := by
  intro here seven yes sign tokens place
  have hvalues : ∀ t ∈ tokens, t.kind = .numeric → ∃ v, t.value = some v := by
    simp [tokens, seven, yes, sign]
  refine ⟨hvalues, ?_, ?_, ?_⟩
  · exact (tests_agree hvalues 0).comparison _ (.comparison rfl rfl)
  · exact (tests_agree hvalues 2).binary _ (.binary (by decide) (by decide) (by decide))
  · have hrefused : Entry.expression.parser (place 2) = (.error (.fault (.noProduction "literal" (sign .endOfFile)
        ["a number", "a symbol", "true", "false"])), place 5) := by cbv
    exact ((tests_agree hvalues 2).origin .expression _ _ _ hrefused).resolve_left (by simp)

end Parse

end FrontEnd
