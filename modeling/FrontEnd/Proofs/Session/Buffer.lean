import FrontEnd.Grammar.Session
import FrontEnd.Proofs.Grammar.Orderly
import FrontEnd.Proofs.Reading.FirstFault

/-!
# A stream stays in its buffer

A stream is made from any tokens and then asked any steps, which may fail half-way. After all of them it stands at a
place of the buffer it began with, with the rest of the buffer ahead; it never goes back, looking and refusing to take a
token leave it where it is, and reading an entry goes over no end of input (**`Stream.run_in_buffer`**). A step leads
onward (`Stream.step_onward`), hence so does a run, and what a step may do besides is `Stream.Step.Respects`.
-/

namespace FrontEnd

namespace Stream

variable {α : Type} {s s' : Stream} {n : Nat} {buffer : List Token}

/-! ## Places of a buffer -/

/-- The stream stands at a place of the buffer: what is pending is the buffer from there on, and the token before that
place, if there is one, ends where the stream says. -/
structure StandsIn (buffer : List Token) (s : Stream) : Prop where
  within : s.index < buffer.length
  pending : s.pending = buffer.drop s.index
  reach : ∀ i, s.index = i + 1 → ∃ t, buffer[i]? = some t ∧ s.reach = t.stop

theorem pending_skip (h : n ≤ s.ahead.length) : (s.skip n).pending = s.pending.drop n := by
  rw [pending, pending, ahead_skip, final_skip, List.drop_append_of_le_length h]

theorem length_pending (s : Stream) : s.pending.length = s.ahead.length + 1 := by
  simp [pending]

theorem index_ofTokens (tokens : List Token) : (ofTokens tokens).index = 0 := by
  rcases List.eq_nil_or_concat tokens with rfl | ⟨ts, t, rfl⟩
  · rfl
  · rw [List.concat_eq_append, ofTokens_concat]
    split <;> rfl

/-- The buffer of a new stream: the tokens it was made from, behind them an end of input if they do not end in one. -/
theorem pending_ofTokens (tokens : List Token) :
    ∃ last, last.isEnd = true ∧ (ofTokens tokens).pending.getLast? = some last ∧
      ((ofTokens tokens).pending = tokens ∨ (ofTokens tokens).pending = tokens ++ [last]) := by
  refine ⟨(ofTokens tokens).final, final_ofTokens_isEnd tokens, by simp [pending], ?_⟩
  rcases List.eq_nil_or_concat tokens with rfl | ⟨ts, t, rfl⟩
  · exact .inr rfl
  · rw [List.concat_eq_append, ofTokens_concat]
    split
    · exact .inl rfl
    · exact .inr rfl

theorem Onward.standsIn (h : s.Onward s') (hs : s.index = 0) : s'.StandsIn s.pending := by
  obtain ⟨n, hn, rfl⟩ := h
  have hindex : (s.skip n).index = n := by rw [index_skip hn, hs, Nat.zero_add]
  refine ⟨?_, by rw [hindex, pending_skip hn], fun i hi => ?_⟩
  · rw [hindex, length_pending]
    omega
  · obtain rfl : n = i + 1 := hindex.symm.trans hi
    exact ⟨s.look i, getElem?_pending (by omega), reach_skip hn⟩

/-! ## Steps -/

/-- What a step may do to a stream in a buffer besides going on. Looking changes nothing, and neither does a token that
is not given. Reading an entry, whether it succeeds or not, goes over no end of input, and when it meets one it says
what it needed there. -/
def Step.Respects (buffer : List Token) (s : Stream) (answer : Answer) (s' : Stream) : Step → Prop
  | .peek | .look _ => s' = s
  | .consume | .expect _ | .dot => (∀ t, answer ≠ .token t) → s' = s
  | .parse .. | .production _ =>
    (∀ i, s.index ≤ i → i < s'.index → ∃ t, buffer[i]? = some t ∧ t.isEnd = false) ∧
      ∀ t, answer ≠ .fault (.endOfInput none t)

theorem respond_snd (answer : α → Answer) (p : Parse α) (s : Stream) : (s.respond answer p).2 = (p s).2 := by
  unfold respond
  split <;> simp_all

/-- A step leads onward, whatever it answers. -/
theorem step_onward (s : Stream) (st : Step) : s.Onward (s.step st).2 := by
  cases st with
  | peek => exact .refl s
  | consume =>
    rw [step, respond_snd]
    exact Parse.moves_consume s
  | look n =>
    rw [step, respond_snd, Parse.look]
    split <;> exact .refl s
  | expect kind | dot =>
    rw [step, respond_snd]
    exact Parse.moves_expect _ s
  | parse entry allowTrailing =>
    rw [step, respond_snd, Parse.named]
    cases Entry.ofName? entry with
    | none => exact .refl s
    | some e => exact e.parse_moves allowTrailing s
  | production entry =>
    rw [step, respond_snd]
    exact entry.moves s

theorem run_onward (s : Stream) (steps : List Step) : s.Onward (s.run steps).2 := by
  induction steps generalizing s with
  | nil => exact .refl s
  | cons st steps ih => exact (s.step_onward st).trans (ih (s.step st).2)

/-- A parser that stays when it refuses, asked for a token that it does not give. -/
theorem respond_token_of_stays {p : Parse Token} (hp : ∀ e s', p s = (.error e, s') → s' = s)
    (h : ∀ t, (s.respond .token p).1 ≠ .token t) : (s.respond .token p).2 = s := by
  unfold respond at h ⊢
  cases hr : p s with
  | mk r s' =>
    rw [hr] at h
    cases r with
    | ok t => exact absurd rfl (h t)
    | error e =>
      obtain rfl := hp e s' hr
      cases e <;> rfl

theorem consume_stays {e : Refusal} (h : Parse.consume s = (.error e, s')) : s' = s := by
  unfold Parse.consume at h
  split at h
  · exact (Prod.mk.inj h).2.symm
  · simp at h

theorem expect_stays {kind : Kind} {e : Refusal} (h : Parse.expect kind s = (.error e, s')) : s' = s := by
  rw [Parse.expect, Parse.bind_of_ok (Parse.peek_eq_ok.2 ⟨rfl, rfl⟩), Parse.ite_apply] at h
  split at h
  · exact consume_stays h
  · exact (Prod.mk.inj h).2.symm

theorem respond_node_fault {p : Parse Node} {f : SyntaxFault} (h : (s.respond .node p).1 = .fault f) :
    (p s).1 = .error (.fault f) := by
  unfold respond at h
  split at h <;> simp_all

/-- Reading in an orderly way goes over no end of input of the buffer. -/
theorem respects_of_orderly {p : Parse Node} (hs : s.StandsIn buffer) (hf : s.final.isEnd = true)
    (hp : Parse.Orderly p s) :
    (∀ i, s.index ≤ i → i < (s.respond .node p).2.index → ∃ t, buffer[i]? = some t ∧ t.isEnd = false) ∧
      ∀ t, (s.respond .node p).1 ≠ .fault (.endOfInput none t) := by
  obtain ⟨⟨n, hclear, hn⟩, hfault⟩ := hp hf
  refine ⟨fun i hi hi' => ?_, fun t ht => ?_⟩
  · rw [respond_snd, hn, index_skip hclear.1] at hi'
    obtain ⟨j, rfl⟩ := Nat.exists_eq_add_of_le hi
    have hj : j < n := by omega
    refine ⟨s.look j, ?_, hclear.2 j hj⟩
    rw [← List.getElem?_drop, ← hs.pending]
    exact getElem?_pending (Nat.le_of_lt (Nat.lt_of_lt_of_le hj hclear.1))
  · obtain ⟨⟨-, k, hk, -⟩, -⟩ := hfault _ (respond_node_fault ht)
    cases hk

theorem step_respects (hs : s.StandsIn buffer) (hf : s.final.isEnd = true) (st : Step) :
    st.Respects buffer s (s.step st).1 (s.step st).2 := by
  cases st with
  | peek => rfl
  | look n =>
    show (s.respond .token (Parse.look n)).2 = s
    rw [respond_snd, Parse.look]
    split <;> rfl
  | consume => exact respond_token_of_stays fun _ _ => consume_stays
  | expect kind | dot => exact respond_token_of_stays fun _ _ => expect_stays
  | parse entry allowTrailing =>
    refine respects_of_orderly hs hf ?_
    unfold Parse.named
    cases Entry.ofName? entry with
    | none => exact fun _ => ⟨⟨0, s.clear_zero, rfl⟩, fun f h => by simp [Parse.misuse] at h⟩
    | some e => exact e.parse_orderly allowTrailing
  | production entry => exact respects_of_orderly hs hf entry.orderly

/-- **A stream stays in its buffer.** Made from any tokens, it has them in its buffer, the last of which is an end of
input; after any steps, also failed ones, it stands at a place of that same buffer; and every further step leaves it in
the buffer, takes it back nowhere, and does no more than such a step may. -/
theorem run_in_buffer (tokens : List Token) (steps : List Step) :
    let buffer := (ofTokens tokens).pending
    let s := ((ofTokens tokens).run steps).2
    (∃ last, last.isEnd = true ∧ buffer.getLast? = some last ∧ (buffer = tokens ∨ buffer = tokens ++ [last])) ∧
      s.StandsIn buffer ∧
      ∀ st, (s.step st).2.StandsIn buffer ∧ s.index ≤ (s.step st).2.index ∧
        st.Respects buffer s (s.step st).1 (s.step st).2 := by
  intro buffer s
  have hrun : (ofTokens tokens).Onward s := run_onward _ steps
  have hs : s.StandsIn buffer := hrun.standsIn (index_ofTokens tokens)
  have hf : s.final.isEnd = true := by
    obtain ⟨n, -, hn⟩ := hrun
    rw [hn, final_skip, final_ofTokens_isEnd]
  refine ⟨pending_ofTokens tokens, hs, fun st => ⟨?_, ?_, step_respects hs hf st⟩⟩
  · exact (hrun.trans (s.step_onward st)).standsIn (index_ofTokens tokens)
  · obtain ⟨n, hn, hstep⟩ := s.step_onward st
    rw [hstep, index_skip hn]
    omega

end Stream

end FrontEnd
