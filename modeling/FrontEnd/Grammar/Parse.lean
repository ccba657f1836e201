import FrontEnd.Grammar.Stream

/-!
# Parsers

A parser reads from a stream and gives a result or a refusal. Either way the stream stays where reading stopped: there
is no way back, because alternatives are chosen by looking ahead.

* `Parse.Shrinks p`: `p` never gives tokens back.
* `Parse.Advances p`: moreover, when `p` succeeds it has taken a token.
* **`Parse.Advances.bind`** and **`Parse.Shrinks.bind_advances`**: in a sequence it is enough that one parser advances.
-/

namespace FrontEnd

inductive Refusal where
  | fault (f : SyntaxFault)
  | misuse (m : Misuse)
deriving DecidableEq, Repr

def Parse (α : Type) : Type :=
  Stream → Except Refusal α × Stream

namespace Parse

variable {α β : Type}

instance : Monad Parse where
  pure a := fun s => (.ok a, s)
  bind p f := fun s =>
    match p s with
    | (.ok a, s') => f a s'
    | (.error e, s') => (.error e, s')

def fail (f : SyntaxFault) : Parse α :=
  fun s => (.error (.fault f), s)

def misuse (m : Misuse) : Parse α :=
  fun s => (.error (.misuse m), s)

/-- The stream as it stands. -/
def here : Parse Stream :=
  fun s => (.ok s, s)

/-- The current token. -/
def peek : Parse Token :=
  fun s => (.ok s.peek, s)

/-- The token after the current one. -/
def peekNext : Parse Token :=
  fun s => (.ok (s.look 1), s)

def look (n : Int) : Parse Token :=
  fun s => if n < 0 then misuse .lookBehind s else (.ok (s.look n.toNat), s)

/-- Takes the current token, whatever it is. -/
def consume : Parse Token := fun s =>
  match s.ahead with
  | [] => (.error (.fault (.endOfInput none s.final)), s)
  | t :: rest => (.ok t, s.taking t rest)

/-- Takes a token of the given kind. -/
def expect (kind : Kind) : Parse Token := do
  let t ← peek
  if t.kind = kind then consume else fail (.mismatch kind t)

/-- Completes a node with the span of what `p` took. -/
def spanned (p : Parse (Option Span → Node)) : Parse Node := fun s =>
  match p s with
  | (.ok f, s') => (.ok (f (some (s.spanTo s'))), s')
  | (.error e, s') => (.error e, s')

/-! ## Running a parser -/

theorem pure_apply (a : α) (s : Stream) : (pure a : Parse α) s = (.ok a, s) := rfl

theorem bind_apply (p : Parse α) (f : α → Parse β) (s : Stream) :
    (p >>= f) s =
      match p s with
      | (.ok a, s') => f a s'
      | (.error e, s') => (.error e, s') := rfl

theorem peek_apply (s : Stream) : peek s = (.ok s.peek, s) := rfl

theorem peekNext_apply (s : Stream) : peekNext s = (.ok (s.look 1), s) := rfl

theorem here_apply (s : Stream) : here s = (.ok s, s) := rfl

theorem ite_apply {c : Prop} [Decidable c] (p q : Parse α) (s : Stream) :
    (if c then p else q : Parse α) s = if c then p s else q s := by
  split <;> rfl

/-! ## Progress -/

def Shrinks (p : Parse α) : Prop :=
  ∀ s, (p s).2.ahead.length ≤ s.ahead.length

def Advances (p : Parse α) : Prop :=
  Shrinks p ∧ ∀ s a s', p s = (.ok a, s') → s'.ahead.length < s.ahead.length

theorem Advances.shrinks {p : Parse α} (hp : Advances p) : Shrinks p := hp.1

theorem Advances.lt {p : Parse α} (hp : Advances p) {s s' : Stream} {a : α} (h : p s = (.ok a, s')) :
    s'.ahead.length < s.ahead.length :=
  hp.2 s a s' h

theorem shrinks_pure (a : α) : Shrinks (pure a : Parse α) := fun _ => Nat.le_refl _

theorem shrinks_misuse (m : Misuse) : Shrinks (misuse m : Parse α) := fun _ => Nat.le_refl _

theorem shrinks_here : Shrinks here := fun _ => Nat.le_refl _

theorem shrinks_peek : Shrinks peek := fun _ => Nat.le_refl _

theorem shrinks_peekNext : Shrinks peekNext := fun _ => Nat.le_refl _

theorem advances_fail (f : SyntaxFault) : Advances (fail f : Parse α) :=
  ⟨fun _ => Nat.le_refl _, fun s a s' h => by simp [fail] at h⟩

theorem advances_consume : Advances consume := by
  constructor
  · intro s
    unfold consume
    split <;> simp_all [Stream.taking]
  · intro s t s' h
    unfold consume at h
    split at h
    · simp at h
    · obtain ⟨rfl, rfl⟩ := by simpa using h
      simp_all [Stream.taking]

theorem Shrinks.bind {p : Parse α} {f : α → Parse β} (hp : Shrinks p) (hf : ∀ a, Shrinks (f a)) :
    Shrinks (p >>= f) := by
  intro s
  have h := hp s
  rw [bind_apply]
  split
  · next a s' hs => exact Nat.le_trans (hf a s') (by simpa [hs] using h)
  · next e s' hs => simpa [hs] using h

/-- After a parser that advances, anything may follow that gives no tokens back. -/
theorem Advances.bind {p : Parse α} {f : α → Parse β} (hp : Advances p) (hf : ∀ a, Shrinks (f a)) :
    Advances (p >>= f) := by
  refine ⟨hp.shrinks.bind hf, fun s b s'' h => ?_⟩
  rw [bind_apply] at h
  split at h
  · next a s' hs => exact Nat.lt_of_le_of_lt (by simpa [h] using hf a s') (hp.lt hs)
  · simp at h

/-- After a parser that only looks, what follows has to advance. -/
theorem Shrinks.bind_advances {p : Parse α} {f : α → Parse β} (hp : Shrinks p) (hf : ∀ a, Advances (f a)) :
    Advances (p >>= f) := by
  refine ⟨hp.bind fun a => (hf a).shrinks, fun s b s'' h => ?_⟩
  have hs := hp s
  rw [bind_apply] at h
  split at h
  · next a s' hs' => exact Nat.lt_of_lt_of_le ((hf a).lt h) (by simpa [hs'] using hs)
  · simp at h

theorem Shrinks.ite {c : Prop} [Decidable c] {p q : Parse α} (hp : Shrinks p) (hq : Shrinks q) :
    Shrinks (if c then p else q) := by
  split <;> assumption

theorem Advances.ite {c : Prop} [Decidable c] {p q : Parse α} (hp : Advances p) (hq : Advances q) :
    Advances (if c then p else q) := by
  split <;> assumption

theorem advances_expect (kind : Kind) : Advances (expect kind) :=
  shrinks_peek.bind_advances fun _ => .ite advances_consume (advances_fail _)

theorem Advances.spanned {p : Parse (Option Span → Node)} (hp : Advances p) : Advances (spanned p) := by
  constructor
  · intro s
    have h := hp.shrinks s
    unfold Parse.spanned
    split <;> simp_all
  · intro s a s' h
    unfold Parse.spanned at h
    split at h
    · next f s₁ hs =>
      obtain ⟨_, rfl⟩ := by simpa using h
      exact hp.lt hs
    · simp at h

end Parse

end FrontEnd
