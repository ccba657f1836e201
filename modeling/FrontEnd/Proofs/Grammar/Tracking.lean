import FrontEnd.Proofs.Grammar.Moving
import FrontEnd.Proofs.Node.Likeness

/-!
# Two readings side by side

A parser sees little of a token: its kind, its text, its value if it is a numeral, and whether it touches the token
before it. A `Likeness` says which tokens count as alike, and `Likeness.Agree L n s t` that two streams agree in this
way on their next `n` tokens.

`Parse.Tracks` says that what happens at `s` happens at `t` as well, as far as `t` agrees with the tokens that were
looked at: up to the offending token for a refusal; for a success up to the last token taken, where the token behind it
may also be replaced by an end of input. The relation is closed under sequencing (**`Parse.Tracks.bind`**).
-/

namespace FrontEnd

/-- Which tokens, and which offsets, count as alike. -/
structure Likeness where
  token : Token → Token → Prop
  offset : Int → Int → Prop
  kind_eq : ∀ {t u : Token}, token t u → t.kind = u.kind
  text_eq : ∀ {t u : Token}, token t u → t.text = u.text
  start : ∀ {t u : Token}, token t u → offset t.start u.start
  stop : ∀ {t u : Token}, token t u → offset t.stop u.stop

/-- The same kind, text and value, wherever the tokens stand. -/
def Token.Alike (t u : Token) : Prop :=
  t.kind = u.kind ∧ t.text = u.text ∧ t.value = u.value

/-- Tokens are alike wherever they stand. -/
def Likeness.anywhere : Likeness where
  token := Token.Alike
  offset := fun _ _ => True
  kind_eq h := h.1
  text_eq h := h.2.1
  start _ := trivial
  stop _ := trivial

/-! ## Values of numerals -/

namespace Parse

/-- The value of a numeral, or why it has none, as long as so many digits may be read. -/
def reading (maxDigits : Option Nat) (u : Token) : Except Refusal Int :=
  match u.value with
  | some v => .ok v
  | none =>
    match Text.readInteger maxDigits u.text with
    | .ok v => .ok v
    | .error .malformed => .error (.misuse (.notAnInteger u.text))
    | .error (.tooManyDigits limit count) => .error (.misuse (.tooManyDigits limit count))

theorem valueOf_apply (u : Token) (s : Stream) : valueOf u s = (reading s.maxDigits u, s) := by
  unfold valueOf reading
  cases u.value with
  | some v => rfl
  | none =>
    simp only [bind_apply, here_apply]
    cases Text.readInteger s.maxDigits u.text with
    | ok v => rfl
    | error e => cases e <;> rfl

/-- A numeral that cannot be read is a misuse and no fault of the text. -/
theorem reading_ne_fault {d : Option Nat} {u : Token} {f : SyntaxFault} : reading d u ≠ .error (.fault f) := by
  unfold reading
  split
  · simp
  · split <;> simp

end Parse

/-! ## Agreement -/

/-- How far behind the current token the offending one stands. Only a statement is refused for the token after its
name. -/
def SyntaxFault.lag (s : Stream) : SyntaxFault → Nat
  | .noProduction production _ _ => if production = "statement" ∧ s.peek.kind = .symbol then 1 else 0
  | _ => 0

namespace Likeness

/-- The same complaint about tokens that are alike. -/
inductive Fault (L : Likeness) : SyntaxFault → SyntaxFault → Prop
  | endOfInput {expected : Option Kind} {t u : Token} : L.token t u →
      L.Fault (.endOfInput expected t) (.endOfInput expected u)
  | unexpectedKind {expected : Kind} {t u : Token} : L.token t u →
      L.Fault (.unexpectedKind expected t) (.unexpectedKind expected u)
  | noProduction {production : String} {forms : List String} {t u : Token} : L.token t u →
      L.Fault (.noProduction production t forms) (.noProduction production u forms)

/-- The next `n` tokens of the streams are alike. -/
structure Agree (L : Likeness) (n : Nat) (s t : Stream) : Prop where
  closed : s.final.isEnd = true ∧ t.final.isEnd = true
  token : ∀ i < n, L.token (s.look i) (t.look i)
  value : ∀ i < n, (s.look i).kind = .numeric →
    Parse.reading s.maxDigits (s.look i) = Parse.reading t.maxDigits (t.look i)
  /-- Tokens touch in both streams or in neither; an end of input may stand anywhere. -/
  touch : ∀ i, i + 1 < n → (s.look (i + 1)).isEnd = false →
    ((s.look (i + 1)).start = (s.look i).stop ↔ (t.look (i + 1)).start = (t.look i).stop)

/-- The next `n` tokens are alike, and behind them the second stream goes on alike or ends. -/
def Upto (L : Likeness) (n : Nat) (s t : Stream) : Prop :=
  L.Agree n s t ∧ ((t.look n).isEnd = true ∨ L.Agree (n + 1) s t)

variable {L : Likeness} {s t : Stream} {k m n : Nat}

theorem Fault.mismatch {kind : Kind} {u v : Token} (h : L.token u v) :
    L.Fault (.mismatch kind u) (.mismatch kind v) := by
  unfold SyntaxFault.mismatch
  rw [L.kind_eq h]
  split
  · exact .endOfInput h
  · exact .unexpectedKind h

theorem Agree.mono (h : L.Agree n s t) (hmn : m ≤ n) : L.Agree m s t where
  closed := h.closed
  token i hi := h.token i (by omega)
  value i hi := h.value i (by omega)
  touch i hi := h.touch i (by omega)

theorem Upto.mono (h : L.Upto n s t) (hmn : m ≤ n) : L.Upto m s t := by
  refine ⟨h.1.mono hmn, ?_⟩
  rcases Nat.lt_or_eq_of_le hmn with hlt | rfl
  · exact .inr (h.1.mono hlt)
  · exact h.2

theorem Agree.upto (h : L.Agree (n + 1) s t) : L.Upto n s t :=
  ⟨h.mono (Nat.le_succ n), .inr h⟩

theorem Upto.agree (h : L.Upto n s t) (hmn : m ≤ n) : L.Agree m s t :=
  h.1.mono hmn

theorem Agree.skip (h : L.Agree (m + n) s t) : L.Agree n (s.skip m) (t.skip m) where
  closed := by simpa using h.closed
  token i hi := by simpa using h.token (m + i) (by omega)
  value i hi hk := by
    rw [Stream.look_skip] at hk
    simpa using h.value (m + i) (by omega) hk
  touch i hi hk := by
    rw [Stream.look_skip] at hk
    simpa [Nat.add_assoc] using h.touch (m + i) (by omega) (by simpa [Nat.add_assoc] using hk)

theorem Upto.skip (h : L.Upto (m + n) s t) : L.Upto n (s.skip m) (t.skip m) := by
  refine ⟨h.1.skip, ?_⟩
  rw [Stream.look_skip]
  exact h.2.imp_right Agree.skip

/-- Spans of as many tokens, from their first to their last. -/
theorem span_like (hs : s.Clear n) (hn : 0 < n) (ht : t.final.isEnd = true) (hfirst : L.token s.peek t.peek)
    (hlast : L.token (s.look (n - 1)) (t.look (n - 1))) :
    Span.Like L.offset (some (s.spanTo (s.skip n))) (some (t.spanTo (t.skip n))) := by
  obtain ⟨n, rfl⟩ : ∃ m, n = m + 1 := ⟨n - 1, by omega⟩
  rw [Nat.add_sub_cancel] at hlast
  have hend : (t.look n).isEnd = false := by
    rw [Token.isEnd, ← L.kind_eq hlast]
    exact hs.2 n (Nat.lt_succ_self n)
  rw [Stream.spanTo_skip hs.1, Stream.spanTo_skip (Stream.lt_of_look ht hend)]
  exact ⟨L.start hfirst, L.stop hlast⟩

end Likeness

namespace Parse

variable {L : Likeness} {α β γ δ : Type} {R : α → β → Prop} {S : γ → δ → Prop} {s t : Stream}
  {x : Except Refusal α × Stream} {y : Except Refusal β × Stream}

/-- What happened at `s` also happens at `t`, if `t` agrees with what was looked at. -/
structure Tracks (L : Likeness) (R : α → β → Prop) (s t : Stream) (x : Except Refusal α × Stream)
    (y : Except Refusal β × Stream) : Prop where
  ok : ∀ {a : α} {n : Nat}, x = (.ok a, s.skip n) → s.Clear n → L.Upto n s t →
    ∃ b, y = (.ok b, t.skip n) ∧ R a b
  fault : ∀ {f : SyntaxFault} {n : Nat}, x = (.error (.fault f), s.skip n) → s.Clear n →
    L.Agree (n + f.lag (s.skip n) + 1) s t → ∃ g, y = (.error (.fault g), t.skip n) ∧ L.Fault f g

/-- Where nothing was taken, nothing was skipped. -/
theorem eq_zero_of_skip {n : Nat} (hn : s.Clear n) (h : s = s.skip n) : n = 0 :=
  Stream.eq_of_skip_eq hn.1 (Nat.zero_le _) h.symm

/-- A success that takes nothing. -/
theorem tracks_return {a : α} (h : L.Upto 0 s t → ∃ b, y = (.ok b, t) ∧ R a b) :
    Tracks L R s t ((pure a : Parse α) s) y where
  ok := by
    intro a' n hx hn hu
    obtain ⟨rfl, hs⟩ := pure_eq_ok.1 hx
    obtain rfl := eq_zero_of_skip hn hs
    exact h hu
  fault := by
    intro f n hx
    simp [pure_apply] at hx

theorem tracks_pure {a : α} {b : β} (h : R a b) :
    Tracks L R s t ((pure a : Parse α) s) ((pure b : Parse β) t) :=
  tracks_return fun _ => ⟨b, rfl, h⟩

/-- A refusal at the current token, or at the one behind it. -/
theorem tracks_fail {f : SyntaxFault}
    (h : L.Agree (f.lag s + 1) s t → ∃ g, y = (.error (.fault g), t) ∧ L.Fault f g) :
    Tracks L R s t ((fail f : Parse α) s) y where
  ok := fun hx => absurd hx fail_ne_ok
  fault := by
    intro f' n hx hn ha
    simp only [fail, Prod.mk.injEq, Except.error.injEq, Refusal.fault.injEq] at hx
    obtain ⟨rfl, hs⟩ := hx
    obtain rfl := eq_zero_of_skip hn hs
    exact h (by simpa using ha)

theorem pos_of_advances {p : Parse α} {a : α} {n : Nat} (hp : Advances p) (h : p s = (.ok a, s.skip n)) : 0 < n := by
  refine Nat.pos_of_ne_zero ?_
  rintro rfl
  exact Nat.lt_irrefl _ (hp.lt h)

/-- A parser that takes a token when it succeeds has looked at that token in any case. -/
theorem Tracks.of_agree {p : Parse α} (hp : Advances p) (h : L.Agree 1 s t → Tracks L R s t (p s) y) :
    Tracks L R s t (p s) y where
  ok := fun hx hn hu => (h (hu.agree (pos_of_advances hp hx))).ok hx hn hu
  fault := fun hx hn ha => (h (ha.mono (by omega))).fault hx hn ha

/-- Tracking may begin behind tokens that both sides have taken. -/
theorem Tracks.after {m : Nat} (hm : m ≤ s.ahead.length) (hx : (s.skip m).Onward x.2)
    (h : s.Clear m → L.Upto m s t → Tracks L R (s.skip m) (t.skip m) x y) : Tracks L R s t x y := by
  obtain ⟨n, hn, hx⟩ := hx
  simp only [Stream.ahead_skip, List.length_drop] at hn
  have split : ∀ {N r}, x = (r, s.skip N) → s.Clear N → N = m + n := by
    intro N r hr hN
    rw [hr, Stream.skip_skip] at hx
    exact Stream.eq_of_skip_eq hN.1 (by omega) hx
  constructor
  case ok =>
    intro a N hr hN hu
    obtain rfl := split hr hN
    have htracks := h (hN.mono (Nat.le_add_right m n)) (hu.mono (Nat.le_add_right m n))
    obtain ⟨b, hb, hab⟩ := htracks.ok (by rw [hr, Stream.skip_skip]) hN.skip hu.skip
    exact ⟨b, by rw [hb, Stream.skip_skip], hab⟩
  case fault =>
    intro f N hr hN ha
    obtain rfl := split hr hN
    have htracks := h (hN.mono (Nat.le_add_right m n)) (ha.mono (by omega)).upto
    rw [← Stream.skip_skip, Nat.add_assoc, Nat.add_assoc] at ha
    obtain ⟨g, hg, hfg⟩ := htracks.fault (by rw [hr, Stream.skip_skip]) hN.skip ha.skip
    exact ⟨g, by rw [hg, Stream.skip_skip], hfg⟩

theorem Tracks.bind {p : Parse α} {q : Parse β} {f : α → Parse γ} {g : β → Parse δ} (hp : Moves p)
    (hf : ∀ a, Moves (f a)) (h : Tracks L R s t (p s) (q t))
    (hfg : ∀ {a b n}, p s = (.ok a, s.skip n) → s.Clear n → L.Upto n s t → R a b →
      Tracks L S (s.skip n) (t.skip n) (f a (s.skip n)) (g b (t.skip n))) :
    Tracks L S s t ((p >>= f) s) ((q >>= g) t) := by
  obtain ⟨m, hm, hs⟩ := hp s
  cases hps : p s with
  | mk r s₁ =>
    obtain rfl : s₁ = s.skip m := by rw [← hs, hps]
    cases r with
    | ok a =>
      rw [bind_of_ok hps]
      refine .after hm (hf a _) fun hc hu => ?_
      obtain ⟨b, hb, hab⟩ := h.ok hps hc hu
      rw [bind_of_ok hb]
      exact hfg hps hc hu hab
    | error e =>
      rw [show (p >>= f) s = (.error e, s.skip m) by rw [bind_apply, hps]]
      refine ⟨fun hx => by simp at hx, fun hx hn ha => ?_⟩
      obtain ⟨he, hskip⟩ := Prod.mk.inj hx
      obtain rfl := Except.error.inj he
      rw [hskip] at hps
      obtain ⟨e', he', hee⟩ := h.fault hps hn ha
      exact ⟨e', by rw [bind_apply, he'], hee⟩

/-- The reading came as far as `s₀`, unless a numeral could not be read. -/
def Beyond (s₀ : Stream) (x : Except Refusal α × Stream) : Prop :=
  (∃ e s', x = (.error (.misuse e), s')) ∨ s₀.Onward x.2

theorem Beyond.bind {p : Parse α} {f : α → Parse γ} {s₀ : Stream} (h : Beyond s₀ (p s)) (hf : ∀ a, Moves (f a)) :
    Beyond s₀ ((p >>= f) s) := by
  rw [bind_apply]
  cases hps : p s with
  | mk r s₁ =>
    rw [hps] at h
    cases r with
    | ok a =>
      rcases h with ⟨e, s', he⟩ | h
      · simp at he
      · exact .inr (h.trans (hf a s₁))
    | error e =>
      rcases h with ⟨e', s', he⟩ | h
      · exact .inl ⟨e', s', by simpa using he⟩
      · exact .inr h

/-- What was taken in any case was looked at. -/
theorem Tracks.of_beyond {m : Nat} (hm : m ≤ s.ahead.length) (hx : Beyond (s.skip m) x)
    (h : L.Upto m s t → Tracks L R s t x y) : Tracks L R s t x y := by
  have least : ∀ {r n}, x = (r, s.skip n) → (∀ e, r ≠ .error (.misuse e)) → s.Clear n → m ≤ n := by
    rintro r n rfl hr hn
    rcases hx with ⟨e, s', he⟩ | ⟨k, hk, hs⟩
    · exact absurd (Prod.mk.inj he).1 (hr e)
    · simp only [Stream.ahead_skip, List.length_drop] at hk
      have := Stream.eq_of_skip_eq hn.1 (by omega) (hs.trans (Stream.skip_skip s m k))
      omega
  exact ⟨fun hx hn hu => (h (hu.mono (least hx (by simp) hn))).ok hx hn hu,
    fun hx hn ha => (h (ha.mono (by have := least hx (by simp) hn; omega)).upto).fault hx hn ha⟩

theorem Tracks.imp {R' : α → β → Prop} (h : Tracks L R s t x y) (hr : ∀ {a b}, R a b → R' a b) :
    Tracks L R' s t x y where
  ok := fun hx hn hu =>
    let ⟨b, hy, hab⟩ := h.ok hx hn hu
    ⟨b, hy, hr hab⟩
  fault := h.fault

/-- The tree is completed with alike spans on both sides. -/
theorem Tracks.spanned {p q : Parse (Option Span → Node)}
    (h : Tracks L (fun F G => ∀ {a b}, Span.Like L.offset a b → Node.Like L.offset (F a) (G b)) s t (p s) (q t))
    (hstart : ∀ {F}, p s = (.ok F, s) → L.offset s.peek.start t.peek.start) :
    Tracks L (Node.Like L.offset) s t (spanned p s) (spanned q t) where
  ok := by
    intro x n hx hn hu
    obtain ⟨F, hF, rfl⟩ := spanned_eq_ok.1 hx
    obtain ⟨G, hG, hFG⟩ := h.ok hF hn hu
    refine ⟨_, spanned_eq_ok.2 ⟨G, hG, rfl⟩, hFG ?_⟩
    rcases Nat.eq_zero_or_pos n with rfl | hpos
    · rw [Stream.skip_zero, Stream.skip_zero, Stream.spanTo_self, Stream.spanTo_self]
      exact ⟨hstart hF, hstart hF⟩
    · exact Likeness.span_like hn hpos hu.1.closed.2 (hu.1.token 0 hpos) (hu.1.token (n - 1) (by omega))
  fault := by
    intro f n hx hn ha
    have hp : p s = (.error (.fault f), s.skip n) := by
      unfold Parse.spanned at hx
      split at hx <;> simp_all
    obtain ⟨g, hg, hfg⟩ := h.fault hp hn ha
    exact ⟨g, by unfold Parse.spanned; rw [hg], hfg⟩

/-- A tree that is made of at least one token. -/
theorem Tracks.spanned_advances {p q : Parse (Option Span → Node)} (hp : Advances (Parse.spanned p))
    (h : Tracks L (fun F G => ∀ {a b}, Span.Like L.offset a b → Node.Like L.offset (F a) (G b)) s t (p s) (q t)) :
    Tracks L (Node.Like L.offset) s t (Parse.spanned p s) (Parse.spanned q t) :=
  h.spanned fun hF => absurd (hp.lt (spanned_eq_ok.2 ⟨_, hF, rfl⟩)) (Nat.lt_irrefl _)

/-! ## Taking one token -/

/-- Looking at tokens that are alike. -/
theorem peek_alike (h : L.Agree 1 s t) : L.token s.peek t.peek :=
  h.token 0 Nat.one_pos

theorem consume_apply (hf : s.final.isEnd = true) (h : s.peek.isEnd = false) :
    consume s = (.ok s.peek, s.skip 1) := by
  obtain ⟨rest, hs⟩ := Stream.exists_ahead hf h
  exact consume_eq_ok.2 ⟨rest, hs, Stream.skip_one hs⟩

theorem expect_apply {k : Kind} (hf : s.final.isEnd = true) (hs : s.peek.kind = k) (hk : k ≠ .endOfFile) :
    expect k s = (.ok s.peek, s.skip 1) := by
  rw [expect, bind_of_ok (peek_eq_ok.2 ⟨rfl, rfl⟩), if_pos hs]
  exact consume_apply hf (by simpa [Token.isEnd, hs] using hk)

theorem tracks_consume (h : s.peek.isEnd = false) :
    Tracks L (fun a b => a = s.peek ∧ b = t.peek ∧ L.Agree 1 s t) s t (consume s) (consume t) := by
  refine .of_agree advances_consume fun hA => ?_
  have ht : t.peek.isEnd = false := by rw [Token.isEnd, ← L.kind_eq (peek_alike hA)]; exact h
  have hlt := Stream.lt_of_look hA.closed.1 h
  rw [consume_apply hA.closed.1 h, consume_apply hA.closed.2 ht]
  constructor
  case ok =>
    intro a n hx hn _
    simp only [Prod.mk.injEq, Except.ok.injEq] at hx
    obtain ⟨rfl, hx⟩ := hx
    obtain rfl : n = 1 := Stream.eq_of_skip_eq hn.1 hlt hx.symm
    exact ⟨t.peek, rfl, rfl, rfl, hA⟩
  case fault => simp

theorem tracks_expect {k : Kind} (hk : k ≠ .endOfFile) :
    Tracks L (fun a b => a = s.peek ∧ b = t.peek ∧ a.kind = k ∧ L.Agree 1 s t) s t (expect k s) (expect k t) := by
  refine .of_agree (advances_expect k) fun hA => ?_
  have htok := peek_alike hA
  simp only [expect, bind_apply, peek_apply, ite_apply, ← L.kind_eq htok]
  split
  · next hs =>
    refine (tracks_consume (by simpa [Token.isEnd, hs] using hk)).imp ?_
    rintro a b ⟨rfl, rfl, hA⟩
    exact ⟨rfl, rfl, hs, hA⟩
  · exact tracks_fail fun _ => ⟨_, rfl, .mismatch htok⟩

theorem tracks_valueOf {u v : Token} (h : reading s.maxDigits u = reading t.maxDigits v) :
    Tracks L (· = ·) s t (valueOf u s) (valueOf v t) := by
  rw [valueOf_apply, valueOf_apply, ← h]
  constructor
  case ok =>
    intro a n hx hn _
    obtain ⟨ha, hs⟩ := Prod.mk.inj hx
    obtain rfl := eq_zero_of_skip hn hs
    exact ⟨a, by rw [ha]; rfl, rfl⟩
  case fault =>
    intro f n hx
    exact absurd (Prod.mk.inj hx).1 reading_ne_fault

/-- A sign that may follow: where there is none, the reading ends there, and it ends at an end of input as well. -/
theorem tracks_optional {f : Kind → Option String} (hf : f .endOfFile = none) {a : α} {b : β} {p : String → Parse α}
    {q : String → Parse β} (hp : ∀ op, Advances (p op)) (hnone : R a b)
    (hsome : ∀ {op}, f s.peek.kind = some op → L.Agree 1 s t → Tracks L R s t (p op s) (q op t)) :
    Tracks L R s t
      ((peek >>= fun u =>
        match f u.kind with
        | none => pure a
        | some op => p op) s)
      ((peek >>= fun u =>
        match f u.kind with
        | none => pure b
        | some op => q op) t) := by
  rw [bind_of_ok (peek_eq_ok.2 ⟨rfl, rfl⟩), bind_of_ok (peek_eq_ok.2 ⟨rfl, rfl⟩)]
  cases hs : f s.peek.kind with
  | none =>
    refine tracks_return fun hu => ⟨b, ?_, hnone⟩
    have ht : f t.peek.kind = none := by
      rcases hu.2 with hend | hA
      · rw [show t.peek.kind = .endOfFile by simpa [Token.isEnd, Stream.peek] using hend, hf]
      · rw [← L.kind_eq (peek_alike hA), hs]
    rw [ht]
    rfl
  | some op =>
    refine .of_agree (hp op) fun hA => ?_
    rw [← L.kind_eq (peek_alike hA), hs]
    exact hsome hs hA

end Parse

end FrontEnd
