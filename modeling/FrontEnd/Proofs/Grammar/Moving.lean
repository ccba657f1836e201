import FrontEnd.Grammar.Statement
import FrontEnd.Proofs.Grammar.Taking

/-!
# Moving along a stream

`Stream.skip` takes a number of tokens at once, and `Stream.Clear s n` says that the next `n` tokens are there to be
taken and none of them is an end of input. However a parser ends, it leaves the stream some tokens further on and
otherwise as it was (`Parse.Moves`); one lemma for each production, and **`Entry.moves`** for all of them. And where
numerals carry their values, a parser refuses for nothing but a fault of the text (`Parse.Fair`, **`Entry.fair`**).
-/

namespace FrontEnd

namespace Stream

/-- The stream after `n` more tokens were taken, or as many as there are. -/
def skip : Stream → Nat → Stream
  | s, 0 => s
  | s, n + 1 =>
    match s.ahead with
    | [] => s
    | t :: rest => (s.taking t rest).skip n

/-- The next `n` tokens can be taken, and none of them is an end of input. -/
def Clear (s : Stream) (n : Nat) : Prop :=
  n ≤ s.ahead.length ∧ ∀ i < n, (s.look i).isEnd = false

variable {s s' : Stream} {t : Token} {ts rest : List Token} {m n : Nat}

@[simp]
theorem skip_zero (s : Stream) : s.skip 0 = s := rfl

theorem skip_nil (h : s.ahead = []) (n : Nat) : s.skip n = s := by
  cases n <;> simp [skip, h]

theorem skip_cons (h : s.ahead = t :: rest) (n : Nat) : s.skip (n + 1) = (s.taking t rest).skip n := by
  simp [skip, h]

theorem skip_one (h : s.ahead = t :: rest) : s.skip 1 = s.taking t rest :=
  skip_cons h 0

@[simp]
theorem ahead_skip (s : Stream) (n : Nat) : (s.skip n).ahead = s.ahead.drop n := by
  induction n generalizing s with
  | zero => rfl
  | succ n ih =>
    cases h : s.ahead with
    | nil => rw [skip_nil h, h, List.drop_nil]
    | cons t rest => rw [skip_cons h, ih, taking, List.drop_succ_cons]

@[simp]
theorem final_skip (s : Stream) (n : Nat) : (s.skip n).final = s.final := by
  induction n generalizing s with
  | zero => rfl
  | succ n ih =>
    cases h : s.ahead with
    | nil => rw [skip_nil h]
    | cons t rest => rw [skip_cons h, ih, taking]

@[simp]
theorem maxDigits_skip (s : Stream) (n : Nat) : (s.skip n).maxDigits = s.maxDigits := by
  induction n generalizing s with
  | zero => rfl
  | succ n ih =>
    cases h : s.ahead with
    | nil => rw [skip_nil h]
    | cons t rest => rw [skip_cons h, ih, taking]

@[simp]
theorem look_skip (s : Stream) (n i : Nat) : (s.skip n).look i = s.look (n + i) := by
  simp [look, List.getD_eq_getElem?_getD]

theorem peek_skip (s : Stream) (n : Nat) : (s.skip n).peek = s.look n :=
  look_skip s n 0

@[simp]
theorem skip_skip (s : Stream) (m n : Nat) : (s.skip m).skip n = s.skip (m + n) := by
  induction m generalizing s with
  | zero => simp
  | succ m ih =>
    cases h : s.ahead with
    | nil => simp [skip_nil h]
    | cons t rest => rw [skip_cons h, ih, Nat.succ_add, skip_cons h]

theorem index_skip (h : n ≤ s.ahead.length) : (s.skip n).index = s.index + n := by
  induction n generalizing s with
  | zero => rfl
  | succ n ih =>
    cases ha : s.ahead with
    | nil => simp [ha] at h
    | cons t rest =>
      rw [skip_cons ha, ih (by simpa [ha, taking] using h)]
      simp only [taking]
      omega

theorem reach_skip (h : n < s.ahead.length) : (s.skip (n + 1)).reach = (s.look n).stop := by
  induction n generalizing s with
  | zero =>
    cases ha : s.ahead with
    | nil => simp [ha] at h
    | cons t rest => simp [skip_one ha, taking, look, ha]
  | succ n ih =>
    cases ha : s.ahead with
    | nil => simp [ha] at h
    | cons t rest =>
      rw [skip_cons ha, ih (by simpa [ha, taking] using h)]
      simp [look, taking, ha]

theorem eq_of_skip_eq (hm : m ≤ s.ahead.length) (hn : n ≤ s.ahead.length) (h : s.skip m = s.skip n) : m = n := by
  have := congrArg index h
  rw [index_skip hm, index_skip hn] at this
  omega

/-- The second stream is the first one some tokens further on. -/
def Onward (s s' : Stream) : Prop :=
  ∃ n, n ≤ s.ahead.length ∧ s' = s.skip n

theorem Onward.refl (s : Stream) : s.Onward s :=
  ⟨0, Nat.zero_le _, rfl⟩

theorem Onward.trans {s'' : Stream} (h : s.Onward s') (h' : s'.Onward s'') : s.Onward s'' := by
  obtain ⟨m, hm, rfl⟩ := h
  obtain ⟨n, hn, rfl⟩ := h'
  refine ⟨m + n, ?_, skip_skip s m n⟩
  simp only [ahead_skip, List.length_drop] at hn
  omega

/-- Taking tokens one by one. -/
theorem Takes.eq_skip (h : s.Takes ts s') : s' = s.skip ts.length ∧ ts.length ≤ s.ahead.length := by
  induction h with
  | nil s => exact ⟨rfl, Nat.zero_le _⟩
  | cons ha _ ih =>
    refine ⟨by rw [ih.1, List.length_cons, skip_cons ha], ?_⟩
    simpa [ha, taking] using ih.2

theorem look_of_le {i : Nat} (h : s.ahead.length ≤ i) : s.look i = s.final := by
  rw [look, List.getD_eq_getElem?_getD, List.getElem?_eq_none h, Option.getD_none]

/-- The last token is an end of input, so any other one can be taken. -/
theorem lt_of_look {i : Nat} (hf : s.final.isEnd = true) (h : (s.look i).isEnd = false) : i < s.ahead.length := by
  refine Nat.lt_of_not_le fun hle => ?_
  rw [look_of_le hle, hf] at h
  cases h

theorem exists_ahead (hf : s.final.isEnd = true) (h : s.peek.isEnd = false) : ∃ rest, s.ahead = s.peek :: rest := by
  have hlt := lt_of_look hf h
  cases ha : s.ahead with
  | nil => simp [ha] at hlt
  | cons t rest => exact ⟨rest, by rw [peek_eq ha]⟩

/-! ## Clear tokens -/

theorem clear_zero (s : Stream) : s.Clear 0 :=
  ⟨Nat.zero_le _, fun i hi => absurd hi (Nat.not_lt_zero i)⟩

theorem Clear.mono (h : s.Clear n) (hmn : m ≤ n) : s.Clear m :=
  ⟨Nat.le_trans hmn h.1, fun i hi => h.2 i (Nat.lt_of_lt_of_le hi hmn)⟩

theorem Clear.skip (h : s.Clear (m + n)) : (s.skip m).Clear n := by
  refine ⟨?_, fun i hi => ?_⟩
  · have := h.1
    simp only [ahead_skip, List.length_drop]
    omega
  · rw [look_skip]
    exact h.2 (m + i) (by omega)

theorem Clear.append (h : s.Clear m) (h' : (s.skip m).Clear n) : s.Clear (m + n) := by
  refine ⟨?_, fun i hi => ?_⟩
  · have h₁ := h.1
    have h₂ := h'.1
    simp only [ahead_skip, List.length_drop] at h₂
    omega
  · by_cases him : i < m
    · exact h.2 i him
    · have := h'.2 (i - m) (by omega)
      rwa [look_skip, Nat.add_sub_cancel' (by omega)] at this

/-- Where only the last token is an end of input, all tokens ahead are clear. -/
theorem clear_of_ahead (h : ∀ t ∈ s.ahead, t.isEnd = false) (hn : n ≤ s.ahead.length) : s.Clear n := by
  refine ⟨hn, fun i hi => ?_⟩
  have hlt : i < s.ahead.length := by omega
  rw [look, List.getD_eq_getElem?_getD, List.getElem?_eq_getElem hlt]
  exact h _ (List.getElem_mem hlt)

/-! ## Spans of what was taken -/

theorem spanTo_self (s : Stream) : s.spanTo s = ⟨s.peek.start, s.peek.start⟩ := by
  simp [spanTo]

theorem spanTo_skip (h : n < s.ahead.length) : s.spanTo (s.skip (n + 1)) = ⟨s.peek.start, (s.look n).stop⟩ := by
  have hindex : (s.skip (n + 1)).index = s.index + (n + 1) := index_skip h
  rw [spanTo, if_neg (by omega), reach_skip h]

end Stream

namespace Parse

variable {α β : Type} {p : Parse α} {s s' : Stream}

/-- Whatever `p` answers, it leaves the stream some tokens further on. -/
def Moves (p : Parse α) : Prop :=
  ∀ s : Stream, s.Onward (p s).2

theorem Moves.shrinks (hp : Moves p) : Shrinks p := by
  intro s
  obtain ⟨n, _, hs⟩ := hp s
  rw [hs, Stream.ahead_skip, List.length_drop]
  omega

theorem moves_pure (a : α) : Moves (pure a : Parse α) := Stream.Onward.refl

theorem moves_fail (f : SyntaxFault) : Moves (fail f : Parse α) := Stream.Onward.refl

theorem moves_misuse (m : Misuse) : Moves (misuse m : Parse α) := Stream.Onward.refl

theorem moves_peek : Moves peek := Stream.Onward.refl

theorem moves_peekNext : Moves peekNext := Stream.Onward.refl

theorem moves_here : Moves here := Stream.Onward.refl

theorem moves_consume : Moves consume := by
  intro s
  unfold consume
  split
  · exact .refl s
  · next t rest ha => exact ⟨1, by simp [ha], (Stream.skip_one ha).symm⟩

theorem Moves.bind {f : α → Parse β} (hp : Moves p) (hf : ∀ a, Moves (f a)) : Moves (p >>= f) := by
  intro s
  have hs := hp s
  rw [bind_apply]
  split
  · next a s' h =>
    rw [h] at hs
    exact hs.trans (hf a s')
  · next e s' h => rwa [h] at hs

theorem Moves.ite {c : Prop} [Decidable c] {q : Parse α} (hp : Moves p) (hq : Moves q) :
    Moves (if c then p else q) := by
  split <;> assumption

theorem moves_expect (kind : Kind) : Moves (expect kind) :=
  moves_peek.bind fun _ => .ite moves_consume (moves_fail _)

theorem Moves.spanned {p : Parse (Option Span → Node)} (hp : Moves p) : Moves (spanned p) := by
  intro s
  have hs := hp s
  unfold Parse.spanned
  split <;> next h => rwa [h] at hs

/-! ## Productions -/

theorem moves_valueOf (t : Token) : Moves (valueOf t) := by
  unfold valueOf
  split
  · exact moves_pure _
  · refine moves_here.bind fun s => ?_
    split
    · exact moves_pure _
    · exact moves_misuse _

theorem moves_symbol : Moves symbol :=
  ((moves_expect _).bind fun _ => moves_pure _).spanned

theorem moves_numeral : Moves numeral :=
  ((moves_expect _).bind fun t => (moves_valueOf t).bind fun _ => moves_pure _).spanned

theorem moves_truth : Moves truth := by
  refine (moves_peek.bind fun t => .ite ?_ (moves_fail _)).spanned
  split
  · exact moves_consume.bind fun _ => moves_pure _
  · exact moves_fail _

theorem moves_literal : Moves literal :=
  moves_peek.bind fun _ => .ite moves_numeral (.ite moves_truth (.ite moves_symbol (moves_fail _)))

theorem moves_unarySign : Moves unarySign := by
  refine moves_peek.bind fun first => .ite ?_ (.ite ?_ (moves_fail _))
  · exact moves_consume.bind fun _ => moves_peek.bind fun _ =>
      .ite (moves_consume.bind fun _ => moves_pure _) (moves_pure _)
  · exact moves_consume.bind fun _ => moves_peek.bind fun _ => .ite (moves_fail _)
      (.ite (moves_fail _) (moves_consume.bind fun _ => moves_pure _))

theorem moves_unary : Moves unary :=
  (moves_unarySign.bind fun _ => moves_literal.bind fun _ => moves_pure _).spanned

theorem moves_comparison : Moves comparison := by
  refine moves_here.bind fun _ => moves_numeral.bind fun _ => moves_peek.bind fun _ => ?_
  split
  · exact moves_pure _
  · exact moves_consume.bind fun _ => moves_numeral.bind fun _ => moves_here.bind fun _ => moves_pure _

theorem moves_operand : Moves operand := by
  refine moves_literal.bind fun left => moves_peek.bind fun t => ?_
  split
  · exact moves_pure _
  · exact moves_consume.bind fun _ => moves_pure _

theorem moves_expression : Moves expression := by
  intro s
  fun_induction expression s with
  | case1 s => exact moves_unary s
  | case2 s => exact moves_comparison s
  | case3 s _ _ _ e s₁ hs | case4 s _ _ _ left s₁ hs => simpa [hs] using moves_operand s
  | case5 s _ _ _ left op s₁ hs _ e s₂ hs₂ ih | case6 s _ _ _ left op s₁ hs _ r s₂ hs₂ ih =>
    have h := moves_operand s
    rw [hs] at h
    rw [hs₂] at ih
    exact h.trans ih
  | case7 s => exact moves_fail _ s

theorem moves_binary : Moves binary := by
  refine moves_here.bind fun _ => moves_operand.bind fun x => ?_
  obtain ⟨left, op?⟩ := x
  cases op? with
  | none => exact moves_pure _
  | some op => exact moves_expression.bind fun _ => moves_here.bind fun _ => moves_pure _

theorem moves_declaration : Moves declaration :=
  (moves_symbol.bind fun _ => (moves_expect _).bind fun _ => (moves_expect _).bind fun _ =>
    moves_expression.bind fun _ => (moves_expect _).bind fun _ => moves_pure _).spanned

theorem moves_assignment : Moves assignment :=
  (moves_symbol.bind fun _ => (moves_expect _).bind fun _ => moves_expression.bind fun _ =>
    (moves_expect _).bind fun _ => moves_pure _).spanned

theorem moves_pragma : Moves pragma :=
  ((moves_expect _).bind fun _ => (moves_expect _).bind fun _ => (moves_expect _).bind fun _ =>
    moves_numeral.bind fun _ => (moves_expect _).bind fun _ => (moves_expect _).bind fun _ => moves_pure _).spanned

theorem moves_statement : Moves statement :=
  moves_peek.bind fun _ => moves_peekNext.bind fun _ =>
    .ite (.ite moves_declaration (.ite moves_assignment (moves_fail _))) (moves_fail _)

theorem moves_statements : Moves statements := by
  intro s
  fun_induction statements s with
  | case1 s => exact .refl s
  | case2 s _ e s₁ hs => simpa [hs] using moves_statement s
  | case3 s _ x s₁ hs _ e s₂ hs₂ ih | case4 s _ x s₁ hs _ xs s₂ hs₂ ih =>
    have h := moves_statement s
    rw [hs] at h
    rw [hs₂] at ih
    exact h.trans ih

theorem moves_block : Moves block :=
  (moves_statements.bind fun _ => moves_pure _).spanned

theorem moves_program : Moves program :=
  (moves_block.bind fun _ => moves_pure _).spanned

end Parse

/-- **Parsers only move on.** -/
theorem Entry.moves : ∀ e : Entry, Parse.Moves e.parser
  | .program => Parse.moves_program
  | .block => Parse.moves_block
  | .statement => Parse.moves_statement
  | .declaration => Parse.moves_declaration
  | .assignment => Parse.moves_assignment
  | .pragma => Parse.moves_pragma
  | .expression => Parse.moves_expression
  | .binary => Parse.moves_binary
  | .comparison => Parse.moves_comparison
  | .unary => Parse.moves_unary
  | .literal => Parse.moves_literal
  | .symbol => Parse.moves_symbol
  | .numeral => Parse.moves_numeral
  | .truth => Parse.moves_truth

/-! ## Refusals -/

theorem Stream.Valued.onward {s s' : Stream} (hv : s.Valued) (h : s.Onward s') : s'.Valued := by
  obtain ⟨n, _, rfl⟩ := h
  exact fun t ht => hv t (List.mem_of_mem_drop (by rwa [Stream.ahead_skip] at ht))

namespace Parse

variable {α β : Type} {p : Parse α} {f : α → Parse β}

/-- Where numerals carry their values, `p` refuses for nothing but a fault. -/
def Fair (p : Parse α) : Prop :=
  ∀ s : Stream, s.Valued → ∀ m s', p s ≠ (.error (.misuse m), s')

theorem fair_pure (a : α) : Fair (pure a : Parse α) := by simp [Fair, pure_apply]

theorem fair_fail (f : SyntaxFault) : Fair (fail f : Parse α) := by simp [Fair, fail]

theorem fair_peek : Fair peek := by simp [Fair, peek_apply]

theorem fair_peekNext : Fair peekNext := by simp [Fair, peekNext_apply]

theorem fair_here : Fair here := by simp [Fair, here_apply]

theorem fair_consume : Fair consume := by
  intro s _ m s' h
  unfold consume at h
  split at h <;> simp at h

/-- What follows may rely on what came before. -/
theorem Fair.bind_of (hp : Fair p)
    (hf : ∀ {s a s'}, s.Valued → p s = (.ok a, s') → ∀ m s'', f a s' ≠ (.error (.misuse m), s'')) :
    Fair (p >>= f) := by
  intro s hv m s' h
  rw [bind_apply] at h
  split at h
  · next a s₁ hs => exact hf hv hs m s' h
  · next e s₁ hs =>
    obtain ⟨he, rfl⟩ := Prod.mk.inj h
    exact hp s hv m s₁ (by rw [hs, Except.error.inj he])

theorem Fair.bind (hp : Fair p) (hm : Moves p) (hf : ∀ a, Fair (f a)) : Fair (p >>= f) :=
  hp.bind_of fun {s a s'} hv hs => hf a s' (hv.onward (by simpa [hs] using hm s))

theorem Fair.ite {c : Prop} [Decidable c] {q : Parse α} (hp : Fair p) (hq : Fair q) : Fair (if c then p else q) := by
  split <;> assumption

theorem fair_expect (kind : Kind) : Fair (expect kind) :=
  fair_peek.bind moves_peek fun _ => .ite fair_consume (fair_fail _)

theorem Fair.spanned {p : Parse (Option Span → Node)} (hp : Fair p) : Fair (spanned p) := by
  intro s hv m s' h
  unfold Parse.spanned at h
  split at h
  · simp at h
  · next e s₁ hs =>
    obtain ⟨he, rfl⟩ := Prod.mk.inj h
    exact hp s hv m s₁ (by rw [hs, Except.error.inj he])

theorem fair_symbol : Fair symbol :=
  ((fair_expect _).bind (moves_expect _) fun _ => fair_pure _).spanned

theorem fair_numeral : Fair numeral := by
  refine Fair.spanned ((fair_expect _).bind_of ?_)
  intro s t s' hv ht m s'' h
  obtain ⟨rest, ha, hk, rfl⟩ := expect_eq_ok.1 ht
  obtain ⟨v, hv⟩ := hv t (by rw [ha]; exact List.mem_cons_self) hk
  simp [valueOf, hv, bind_apply, pure_apply] at h

theorem fair_truth : Fair truth := by
  refine (fair_peek.bind moves_peek fun t => .ite ?_ (fair_fail _)).spanned
  split
  · exact fair_consume.bind moves_consume fun _ => fair_pure _
  · exact fair_fail _

theorem fair_literal : Fair literal :=
  fair_peek.bind moves_peek fun _ => .ite fair_numeral (.ite fair_truth (.ite fair_symbol (fair_fail _)))

theorem fair_unarySign : Fair unarySign := by
  refine fair_peek.bind moves_peek fun first => .ite ?_ (.ite ?_ (fair_fail _))
  · exact fair_consume.bind moves_consume fun _ => fair_peek.bind moves_peek fun _ =>
      .ite (fair_consume.bind moves_consume fun _ => fair_pure _) (fair_pure _)
  · exact fair_consume.bind moves_consume fun _ => fair_peek.bind moves_peek fun _ => .ite (fair_fail _)
      (.ite (fair_fail _) (fair_consume.bind moves_consume fun _ => fair_pure _))

theorem fair_unary : Fair unary :=
  (fair_unarySign.bind moves_unarySign fun _ => fair_literal.bind moves_literal fun _ => fair_pure _).spanned

theorem fair_comparison : Fair comparison := by
  refine fair_here.bind moves_here fun _ => fair_numeral.bind moves_numeral fun _ =>
    fair_peek.bind moves_peek fun _ => ?_
  split
  · exact fair_pure _
  · exact fair_consume.bind moves_consume fun _ => fair_numeral.bind moves_numeral fun _ =>
      fair_here.bind moves_here fun _ => fair_pure _

theorem fair_operand : Fair operand := by
  refine fair_literal.bind moves_literal fun left => fair_peek.bind moves_peek fun t => ?_
  split
  · exact fair_pure _
  · exact fair_consume.bind moves_consume fun _ => fair_pure _

theorem fair_expression : Fair expression := by
  intro s hv
  fun_induction expression s with
  | case1 s => exact fair_unary s hv
  | case2 s => exact fair_comparison s hv
  | case3 s _ _ _ e s₁ hs =>
    intro m s' h
    exact fair_operand s hv m s' (by simpa [hs] using h)
  | case4 | case6 => simp
  | case5 s _ _ _ left op s₁ hs _ e s₂ hs₂ ih =>
    intro m s' h
    exact ih (hv.onward (by simpa [hs] using moves_operand s)) m s' (by simpa [hs₂] using h)
  | case7 s => exact fair_fail _ s hv

theorem fair_binary : Fair binary := by
  refine fair_here.bind moves_here fun _ => fair_operand.bind moves_operand fun x => ?_
  obtain ⟨left, op?⟩ := x
  cases op? with
  | none => exact fair_pure _
  | some op => exact fair_expression.bind moves_expression fun _ => fair_here.bind moves_here fun _ => fair_pure _

theorem fair_declaration : Fair declaration :=
  (fair_symbol.bind moves_symbol fun _ => (fair_expect _).bind (moves_expect _) fun _ =>
    (fair_expect _).bind (moves_expect _) fun _ => fair_expression.bind moves_expression fun _ =>
    (fair_expect _).bind (moves_expect _) fun _ => fair_pure _).spanned

theorem fair_assignment : Fair assignment :=
  (fair_symbol.bind moves_symbol fun _ => (fair_expect _).bind (moves_expect _) fun _ =>
    fair_expression.bind moves_expression fun _ => (fair_expect _).bind (moves_expect _) fun _ => fair_pure _).spanned

theorem fair_pragma : Fair pragma :=
  ((fair_expect _).bind (moves_expect _) fun _ => (fair_expect _).bind (moves_expect _) fun _ =>
    (fair_expect _).bind (moves_expect _) fun _ => fair_numeral.bind moves_numeral fun _ =>
    (fair_expect _).bind (moves_expect _) fun _ => (fair_expect _).bind (moves_expect _) fun _ => fair_pure _).spanned

theorem fair_statement : Fair statement :=
  fair_peek.bind moves_peek fun _ => fair_peekNext.bind moves_peekNext fun _ =>
    .ite (.ite fair_declaration (.ite fair_assignment (fair_fail _))) (fair_fail _)

theorem fair_statements : Fair statements := by
  intro s hv
  fun_induction statements s with
  | case1 | case4 => simp
  | case2 s _ e s₁ hs =>
    intro m s' h
    exact fair_statement s hv m s' (by simpa [hs] using h)
  | case3 s _ x s₁ hs _ e s₂ hs₂ ih =>
    intro m s' h
    exact ih (hv.onward (by simpa [hs] using moves_statement s)) m s' (by simpa [hs₂] using h)

theorem fair_block : Fair block :=
  (fair_statements.bind moves_statements fun _ => fair_pure _).spanned

theorem fair_program : Fair program :=
  (fair_block.bind moves_block fun _ => fair_pure _).spanned

end Parse

namespace Entry

open Parse

/-- **Parsers are fair**: where numerals carry their values, only faults are refused. -/
theorem fair : ∀ e : Entry, Fair e.parser
  | program => fair_program
  | block => fair_block
  | statement => fair_statement
  | declaration => fair_declaration
  | assignment => fair_assignment
  | pragma => fair_pragma
  | expression => fair_expression
  | binary => fair_binary
  | comparison => fair_comparison
  | unary => fair_unary
  | literal => fair_literal
  | symbol => fair_symbol
  | numeral => fair_numeral
  | truth => fair_truth

theorem parse_moves (e : Entry) (allowTrailing : Bool) : Moves (e.parse allowTrailing) :=
  e.moves.bind fun _ => moves_peek.bind fun _ => .ite (moves_pure _) (moves_fail _)

theorem parse_fair (e : Entry) (allowTrailing : Bool) : Fair (e.parse allowTrailing) :=
  e.fair.bind e.moves fun _ => fair_peek.bind moves_peek fun _ => .ite (fair_pure _) (fair_fail _)

end Entry

end FrontEnd
