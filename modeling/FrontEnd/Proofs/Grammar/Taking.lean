import FrontEnd.Grammar.Parse

/-!
# Taking tokens

`Stream.Takes s ts s'` says that `s'` is the stream `s` after the tokens `ts` were taken from it, one by one. Every
parser that succeeds has taken some tokens, and the lemmas `*_eq_ok` say which: they turn the run of a parser into
facts about the tokens ahead, and back.
-/

namespace FrontEnd

namespace Stream

/-- Taking the tokens `ts` off the first stream leads to the second. -/
inductive Takes : Stream → List Token → Stream → Prop
  | nil (s : Stream) : Takes s [] s
  | cons {s s' : Stream} {t : Token} {ts rest : List Token} :
      s.ahead = t :: rest → Takes (s.taking t rest) ts s' → Takes s (t :: ts) s'

/-- Every numeral ahead carries its value. -/
def Valued (s : Stream) : Prop :=
  ∀ t ∈ s.ahead, t.kind = .numeric → ∃ v, t.value = some v

variable {s s' s'' : Stream} {t : Token} {ts us rest : List Token}

theorem peek_eq (h : s.ahead = t :: rest) : s.peek = t := by
  simp [peek, look, h]

theorem look_one_eq (h : s.ahead = t :: rest) : s.look 1 = (s.taking t rest).peek := by
  simp [peek, look, taking, h]

theorem Takes.one (h : s.ahead = t :: rest) : Takes s [t] (s.taking t rest) :=
  .cons h (.nil _)

theorem Takes.of_cons (h : Takes s (t :: ts) s') :
    ∃ rest, s.ahead = t :: rest ∧ Takes (s.taking t rest) ts s' := by
  cases h with
  | cons ha h => exact ⟨_, ha, h⟩

theorem Takes.of_one (h : Takes s [t] s') : ∃ rest, s.ahead = t :: rest ∧ s' = s.taking t rest := by
  obtain ⟨rest, ha, h⟩ := h.of_cons
  cases h
  exact ⟨rest, ha, rfl⟩

theorem Takes.append (h : Takes s ts s') (h' : Takes s' us s'') : Takes s (ts ++ us) s'' := by
  induction h with
  | nil _ => exact h'
  | cons ha _ ih => exact .cons ha (ih h')

theorem Takes.split (h : Takes s (ts ++ us) s'') : ∃ s', Takes s ts s' ∧ Takes s' us s'' := by
  induction ts generalizing s with
  | nil => exact ⟨s, .nil s, h⟩
  | cons t ts ih =>
    cases h with
    | cons ha h =>
      obtain ⟨s', h₁, h₂⟩ := ih h
      exact ⟨s', .cons ha h₁, h₂⟩

theorem Takes.ahead_eq (h : Takes s ts s') : s.ahead = ts ++ s'.ahead := by
  induction h with
  | nil _ => rfl
  | cons ha _ ih => rw [ha, List.cons_append, ← ih]; rfl

theorem Takes.final_eq (h : Takes s ts s') : s'.final = s.final := by
  induction h with
  | nil _ => rfl
  | cons _ _ ih => exact ih

/-- Tokens ahead can be taken. -/
theorem exists_takes (h : s.ahead = ts ++ rest) : ∃ s', Takes s ts s' ∧ s'.ahead = rest := by
  induction ts generalizing s with
  | nil => exact ⟨s, .nil s, h⟩
  | cons t ts ih =>
    obtain ⟨s', hs, hr⟩ := ih (s := s.taking t (ts ++ rest)) rfl
    exact ⟨s', .cons h hs, hr⟩

theorem Valued.of_takes (hv : s.Valued) (h : Takes s ts s') : s'.Valued := fun t ht =>
  hv t (by rw [h.ahead_eq]; exact List.mem_append_right _ ht)

end Stream

namespace Parse

variable {α β : Type} {s s' s'' : Stream} {t : Token}

theorem bind_eq_ok {p : Parse α} {f : α → Parse β} {b : β} :
    (p >>= f) s = (.ok b, s'') ↔ ∃ a s', p s = (.ok a, s') ∧ f a s' = (.ok b, s'') := by
  rw [bind_apply]
  constructor
  · intro h
    split at h
    · next a s' hp => exact ⟨a, s', hp, h⟩
    · simp at h
  · rintro ⟨a, s', hp, hf⟩
    rw [hp]
    exact hf

theorem bind_of_ok {p : Parse α} {f : α → Parse β} {a : α} (h : p s = (.ok a, s')) : (p >>= f) s = f a s' := by
  rw [bind_apply, h]

theorem pure_eq_ok {a b : α} : (pure a : Parse α) s = (.ok b, s') ↔ a = b ∧ s = s' := by
  simp [pure_apply]

theorem peek_eq_ok : peek s = (.ok t, s') ↔ s.peek = t ∧ s = s' := by
  simp [peek_apply]

theorem peekNext_eq_ok : peekNext s = (.ok t, s') ↔ s.look 1 = t ∧ s = s' := by
  simp [peekNext_apply]

theorem here_eq_ok : here s = (.ok s'', s') ↔ s = s'' ∧ s = s' := by
  simp [here_apply]

theorem fail_ne_ok {f : SyntaxFault} {a : α} : (fail f : Parse α) s ≠ (.ok a, s') := by
  simp [fail]

theorem consume_eq_ok : consume s = (.ok t, s') ↔ ∃ rest, s.ahead = t :: rest ∧ s' = s.taking t rest := by
  unfold consume
  constructor
  · intro h
    split at h
    · simp at h
    · next u rest ha =>
      obtain ⟨rfl, rfl⟩ := by simpa using h
      exact ⟨rest, ha, rfl⟩
  · rintro ⟨rest, ha, rfl⟩
    simp [ha]

theorem expect_eq_ok {k : Kind} :
    expect k s = (.ok t, s') ↔ ∃ rest, s.ahead = t :: rest ∧ t.kind = k ∧ s' = s.taking t rest := by
  simp only [expect, bind_apply, peek_apply, ite_apply]
  constructor
  · intro h
    split at h
    · next hk =>
      obtain ⟨rest, ha, rfl⟩ := consume_eq_ok.1 h
      exact ⟨rest, ha, by rw [← hk, Stream.peek_eq ha], rfl⟩
    · exact absurd h fail_ne_ok
  · rintro ⟨rest, ha, hk, rfl⟩
    rw [if_pos (by rw [Stream.peek_eq ha, hk])]
    exact consume_eq_ok.2 ⟨rest, ha, rfl⟩

theorem spanned_eq_ok {p : Parse (Option Span → Node)} {n : Node} :
    spanned p s = (.ok n, s') ↔ ∃ f, p s = (.ok f, s') ∧ f (some (s.spanTo s')) = n := by
  unfold spanned
  constructor
  · intro h
    split at h
    · next f s₁ hp =>
      obtain ⟨hn, rfl⟩ := by simpa using h
      exact ⟨f, hp, hn⟩
    · simp at h
  · rintro ⟨f, hp, hn⟩
    simp [hp, hn]

end Parse

end FrontEnd
