import FrontEnd.Proofs.Grammar.Calling

/-!
# Tokens that productions take

`Parse.Spends n p` says that `p` takes `n` tokens or more when it succeeds; in a sequence the numbers add up. There is a
least number for each production (**`Entry.spends`**), which is zero for blocks and programs alone.

No stream can be such that parsing would not come to an end on it, wherever ends of input stand in it and whatever its
tokens are: the loop of a block has at most a turn for every four tokens, and calls are nested in each other no deeper
than there are tokens ahead, up to a constant (**`Stream.progresses`**).
-/

namespace FrontEnd

theorem Stream.Onward.index_add {s s' : Stream} (h : s.Onward s') :
    s'.index + s'.ahead.length = s.index + s.ahead.length := by
  obtain ⟨n, hn, rfl⟩ := h
  rw [index_skip hn, ahead_skip, List.length_drop]
  omega

namespace Parse

variable {α β : Type} {p : Parse α} {s s' s₁ : Stream} {m n : Nat}

/-- When `p` succeeds, it has taken `n` tokens or more. -/
def Spends (n : Nat) (p : Parse α) : Prop :=
  ∀ s a s', p s = (.ok a, s') → s.index + n ≤ s'.index

theorem Moves.spends (hp : Moves p) : Spends 0 p := by
  intro s a s' h
  have hindex := (hp.of_ok h).index_add
  have hlength := (hp.of_ok h).length_le
  omega

theorem Advances.spends (hp : Advances p) (hm : Moves p) : Spends 1 p := by
  intro s a s' h
  have hindex := (hm.of_ok h).index_add
  have hlength := hp.lt h
  omega

theorem spends_fail (n : Nat) (f : SyntaxFault) : Spends n (fail f : Parse α) :=
  fun _ _ _ h => absurd h fail_ne_ok

theorem Spends.mono (hp : Spends n p) (hmn : m ≤ n) : Spends m p := by
  intro s a s' h
  have := hp s a s' h
  omega

theorem Spends.bind {f : α → Parse β} (hp : Spends m p) (hf : ∀ a, Spends n (f a)) : Spends (n + m) (p >>= f) := by
  intro s b s' h
  obtain ⟨a, s₁, ha, hb⟩ := bind_eq_ok.1 h
  have := hp s a s₁ ha
  have := hf a s₁ b s' hb
  omega

theorem Spends.ite {c : Prop} [Decidable c] {q : Parse α} (hp : Spends n p) (hq : Spends n q) :
    Spends n (if c then p else q) := by
  split <;> assumption

theorem Spends.spanned {p : Parse (Option Span → Node)} (hp : Spends n p) : Spends n (spanned p) := by
  intro s x s' h
  obtain ⟨f, hf, -⟩ := spanned_eq_ok.1 h
  exact hp s f s' hf

/-! ## Productions -/

theorem spends_expect (k : Kind) : Spends 1 (expect k) := (advances_expect k).spends (moves_expect k)

theorem spends_symbol : Spends 1 symbol := advances_symbol.spends moves_symbol

theorem spends_numeral : Spends 1 numeral := advances_numeral.spends moves_numeral

theorem spends_literal : Spends 1 literal := advances_literal.spends moves_literal

theorem spends_expression : Spends 1 expression := advances_expression.spends moves_expression

theorem spends_unary : Spends 2 unary :=
  ((advances_unarySign.spends moves_unarySign).bind fun _ => spends_literal.bind fun _ => (moves_pure _).spends).spanned

theorem spends_binary : Spends 1 binary := by
  refine moves_here.spends.bind (n := 1) fun _ => (advances_operand.spends moves_operand).bind (n := 0) fun x => ?_
  obtain ⟨left, op?⟩ := x
  cases op? with
  | none => exact (moves_pure _).spends
  | some op => exact (moves_expression.bind fun _ => moves_here.bind fun _ => moves_pure _).spends

theorem spends_declaration : Spends 5 declaration :=
  (spends_symbol.bind fun _ => (spends_expect _).bind fun _ => (spends_expect _).bind fun _ =>
    spends_expression.bind fun _ => (spends_expect _).bind fun _ => (moves_pure _).spends).spanned

theorem spends_assignment : Spends 4 assignment :=
  (spends_symbol.bind fun _ => (spends_expect _).bind fun _ => spends_expression.bind fun _ =>
    (spends_expect _).bind fun _ => (moves_pure _).spends).spanned

theorem spends_pragma : Spends 6 pragma :=
  ((spends_expect _).bind fun _ => (spends_expect _).bind fun _ => (spends_expect _).bind fun _ =>
    spends_numeral.bind fun _ => (spends_expect _).bind fun _ => (spends_expect _).bind fun _ =>
    (moves_pure _).spends).spanned

theorem spends_statement : Spends 4 statement :=
  moves_peek.spends.bind (n := 4) fun _ => moves_peekNext.spends.bind (n := 4) fun _ =>
    .ite (.ite (spends_declaration.mono (by decide)) (.ite spends_assignment (spends_fail _ _))) (spends_fail _ _)

end Parse

open Parse

/-- The number of tokens that the entry takes at least. -/
def Entry.least : Entry → Nat
  | program | block => 0
  | statement | assignment => 4
  | declaration => 5
  | pragma => 6
  | unary => 2
  | expression | binary | comparison | literal | symbol | numeral | truth => 1

/-- **Productions that succeed have taken tokens.** -/
theorem Entry.spends : ∀ e : Entry, Spends e.least e.parser
  | .program => moves_program.spends
  | .block => moves_block.spends
  | .statement => spends_statement
  | .declaration => spends_declaration
  | .assignment => spends_assignment
  | .pragma => spends_pragma
  | .expression => spends_expression
  | .binary => spends_binary
  | .comparison => advances_comparison.spends moves_comparison
  | .unary => spends_unary
  | .literal => spends_literal
  | .symbol => spends_symbol
  | .numeral => spends_numeral
  | .truth => advances_truth.spends moves_truth

theorem Entry.least_pos {e : Entry} (hb : e ≠ .block) (hp : e ≠ .program) : 0 < e.least := by
  cases e <;> simp_all [least]

theorem Entry.rank_le (e : Entry) : e.rank ≤ 7 := by
  cases e <;> decide

/-! ## Loops and recursion -/

theorem Parse.Turns.spends {s s' : Stream} {xs : List Node} (h : Turns s xs s') :
    s.index + 4 * xs.length ≤ s'.index := by
  induction h with
  | nil => exact Nat.le_refl _
  | cons _ hx _ ih =>
    have := spends_statement _ _ _ hx
    rw [List.length_cons]
    omega

namespace Stream

/-- Parsing makes progress from here on. -/
structure Progresses (s : Stream) : Prop where
  /-- A production other than a block or a program has taken a token when it succeeds. -/
  production : ∀ e : Entry, e ≠ .block → e ≠ .program → ∀ n s', e.parser s = (.ok n, s') → s.index < s'.index
  /-- A statement has taken four. -/
  statement : ∀ n s', statement s = (.ok n, s') → s.index + 4 ≤ s'.index
  /-- An expression that a binary expression calls begins two tokens further on. -/
  recursion : ∀ x op s', operand s = (.ok (x, some op), s') →
    Calls .binary s .expression s' ∧ s.index + 2 ≤ s'.index
  /-- The loop of a block takes at most one turn for every four tokens, and then ends it: at an end of input or with
  the refusal of a statement. -/
  loop : ∃ xs s', Turns s xs s' ∧ 4 * xs.length ≤ s.ahead.length ∧
    (s'.peek.isEnd = true ∧ block s = (.ok (.block xs (some (s.spanTo s'))), s') ∨
      s'.peek.isEnd = false ∧ ∃ r s'', Parse.statement s' = (.error r, s'') ∧ block s = (.error r, s''))
  /-- Calls are nested no deeper than there are tokens ahead, up to a constant. -/
  depth : ∀ k e e' s', Nested k e s e' s' → k ≤ s.ahead.length + 7

/-- **Parsing makes progress on every stream.** -/
theorem progresses (s : Stream) : s.Progresses where
  production e hb hp n s' h := by
    have hpos := Entry.least_pos hb hp
    have hspends := e.spends s n s' h
    omega
  statement n s' h := spends_statement s n s' h
  recursion x op s' h := by
    obtain ⟨s₁, t, hx, hop, ht⟩ := operand_eq_sign h
    have hliteral := spends_literal s x s₁ hx
    have hsign := advances_consume.spends moves_consume s₁ t s' ht
    exact ⟨.right hx hop ht, by omega⟩
  loop := by
    obtain ⟨xs, s', hturns, hlast⟩ := exists_turns s
    have hindex := hturns.onward.index_add
    have hspends := hturns.spends
    refine ⟨xs, s', hturns, by omega, ?_⟩
    rcases hlast with hend | ⟨hs, r, s'', hr⟩
    · refine .inl ⟨hend, spanned_eq_ok.2 ⟨.block xs, ?_, rfl⟩⟩
      rw [bind_of_ok (hturns.statements_of_end hend)]
      rfl
    · exact .inr ⟨hs, r, s'', hr, spanned_of_error (bind_of_error (hturns.statements_of_refusal hs hr))⟩
  depth k e e' s' h := by
    have hweight := h.le_weight
    have hrank := e.rank_le
    omega

end Stream

end FrontEnd
