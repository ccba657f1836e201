import FrontEnd.Proofs.Grammar.Sequence
import FrontEnd.Proofs.Session.Buffer

/-!
# What a parse has looked at

A parse that succeeds has looked at the tokens it took and at most at the one behind them; a parse that is refused has
looked no further than at the offending token. So on any other buffer with the same tokens up to there it ends in the
same way and at the same place (**`Entry.parse_of_same_tokens`**). This is lockstep between streams whose next tokens
are the same (`Stream.Shares`), read at the place where an orderly parser has stopped. In particular, no token behind
an end of input matters.
-/

namespace FrontEnd

namespace Likeness

theorem Fault.eq {f g : SyntaxFault} (h : exact.Fault f g) : f = g := by
  cases h with
  | endOfInput h | unexpectedKind h | noProduction h =>
    obtain rfl : _ = _ := h
    rfl

end Likeness

/-- The offending token is the current one, or, for a statement that begins with a name, the one behind the name. -/
theorem SyntaxFault.lag_cases (f : SyntaxFault) (s : Stream) :
    f.lag s = 0 ∨ f.lag s = 1 ∧ s.peek.kind = .symbol ∧ ∃ forms, f = .noProduction "statement" f.found forms := by
  cases f with
  | endOfInput | unexpectedKind => exact .inl rfl
  | noProduction production t forms =>
    by_cases h : production = "statement" ∧ s.peek.kind = .symbol
    · obtain ⟨rfl, hs⟩ := h
      exact .inr ⟨if_pos ⟨rfl, hs⟩, hs, forms, rfl⟩
    · exact .inl (if_neg h)

namespace Stream

variable {s t : Stream} {m n : Nat} {tokens : List Token}

/-- The next `n` tokens are the same. -/
structure Shares (n : Nat) (s t : Stream) : Prop where
  closed : s.final.isEnd = true ∧ t.final.isEnd = true
  maxDigits : s.maxDigits = t.maxDigits
  look : ∀ i < n, s.look i = t.look i

theorem Shares.mono (h : Shares n s t) (hmn : m ≤ n) : Shares m s t where
  closed := h.closed
  maxDigits := h.maxDigits
  look i hi := h.look i (by omega)

theorem Shares.agree (h : Shares n s t) : Likeness.exact.Agree n s t where
  closed := h.closed
  token := h.look
  value i hi _ := by rw [h.look i hi, h.maxDigits]
  touch i hi _ := by rw [h.look (i + 1) hi, h.look i (by omega)]

/-- Buffers that begin with the same tokens show them. -/
theorem look_eq_of_take (h : t.pending.take (n + 1) = s.pending.take (n + 1)) (hn : n ≤ s.ahead.length) :
    n ≤ t.ahead.length ∧ ∀ i < n + 1, s.look i = t.look i := by
  have hlength := congrArg List.length h
  rw [List.length_take, List.length_take, length_pending, length_pending] at hlength
  have ht : n ≤ t.ahead.length := by omega
  refine ⟨ht, ?_⟩
  intro i hi
  have hget : t.pending[i]? = s.pending[i]? := by
    rw [← List.getElem?_take_of_lt hi, h, List.getElem?_take_of_lt hi]
  rw [getElem?_pending (by omega), getElem?_pending (by omega)] at hget
  exact (Option.some.inj hget).symm

theorem shares_of_take {as bs : List Token} (hn : n ≤ (ofTokens as).ahead.length)
    (h : (ofTokens bs).pending.take (n + 1) = (ofTokens as).pending.take (n + 1)) :
    n ≤ (ofTokens bs).ahead.length ∧ Shares (n + 1) (ofTokens as) (ofTokens bs) := by
  obtain ⟨ht, hlook⟩ := look_eq_of_take h hn
  refine ⟨ht, ⟨final_ofTokens_isEnd as, final_ofTokens_isEnd bs⟩, ?_, hlook⟩
  rw [maxDigits_ofTokens, maxDigits_ofTokens]

/-- Tokens that are taken without an end of input among them stand before every end of input. -/
theorem Clear.le_of_end (h : s.Clear n) (hend : (s.look m).isEnd = true) : n ≤ m := by
  rcases Nat.lt_or_ge m n with hlt | hle
  · simp [h.2 m hlt] at hend
  · exact hle

theorem index_skip_ofTokens (h : n ≤ (ofTokens tokens).ahead.length) : ((ofTokens tokens).skip n).index = n := by
  rw [index_skip h, index_ofTokens, Nat.zero_add]

/-- Where the numerals that a stream is made from carry their values, those ahead do. -/
theorem valued_ofTokens (h : ∀ t ∈ tokens, t.kind = .numeric → ∃ v, t.value = some v) : (ofTokens tokens).Valued := by
  intro t ht
  rcases List.eq_nil_or_concat tokens with rfl | ⟨init, u, rfl⟩
  · cases ht
  rw [List.concat_eq_append] at ht h
  rw [ofTokens_concat] at ht
  split at ht
  · exact h t (List.mem_append_left _ ht)
  · exact h t ht

end Stream

namespace Entry

open Parse

variable {e : Entry} {allowTrailing : Bool} {s t : Stream} {k : Nat} {f : SyntaxFault} {x : Node}

theorem parse_ok_of_shares (h : e.parse allowTrailing s = (.ok x, s.skip k)) (hk : s.Clear k)
    (hsame : s.Shares (k + 1) t) : e.parse allowTrailing t = (.ok x, t.skip k) := by
  have hpeek : s.peek = t.peek := hsame.look 0 (Nat.succ_pos k)
  have htracks := e.parse_tracks (L := .exact) allowTrailing fun _ => congrArg Token.start hpeek
  obtain ⟨y, hy, hlike⟩ := htracks.ok h hk hsame.agree.upto
  obtain rfl : x = y := Node.Like.eq hlike
  exact hy

theorem parse_fault_of_shares (h : e.parse allowTrailing s = (.error (.fault f), s.skip k)) (hk : s.Clear k)
    (hsame : s.Shares (k + f.lag (s.skip k) + 1) t) : e.parse allowTrailing t = (.error (.fault f), t.skip k) := by
  have hpeek : s.peek = t.peek := hsame.look 0 (Nat.succ_pos _)
  have htracks := e.parse_tracks (L := .exact) allowTrailing fun _ => congrArg Token.start hpeek
  obtain ⟨g, hg, hfault⟩ := htracks.fault h hk hsame.agree
  obtain rfl : f = g := hfault.eq
  exact hg

/-- However a parse ends, it has taken some tokens that are no ends of input, and the offending token of a fault is
still in the buffer. -/
theorem parse_stops (e : Entry) (allowTrailing : Bool) (hs : s.final.isEnd = true) :
    ∃ k, s.Clear k ∧ (e.parse allowTrailing s).2 = s.skip k ∧
      ∀ f, (e.parse allowTrailing s).1 = .error (.fault f) →
        f.found = s.look (k + f.lag (s.skip k)) ∧ k + f.lag (s.skip k) ≤ s.ahead.length := by
  obtain ⟨⟨k, hk, hskip⟩, hfault⟩ := e.parse_orderly allowTrailing hs
  refine ⟨k, hk, hskip, ?_⟩
  intro f hf
  obtain ⟨-, hfound⟩ := hfault f hf
  have hlag := f.lag_le (s := s.skip k) (by rw [Stream.final_skip, hs])
  rw [Stream.ahead_skip, List.length_drop] at hlag
  have hle := hk.1
  exact ⟨by rw [hfound, hskip, Stream.look_skip], by omega⟩

/-- A parse never looks behind an end of input. -/
theorem parse_of_end_shared {j : Nat} (e : Entry) (allowTrailing : Bool) (hv : s.Valued)
    (hend : (s.look j).isEnd = true) (hsame : s.Shares (j + 1) t) :
    ∃ r k, k ≤ j ∧ e.parse allowTrailing s = (r, s.skip k) ∧ e.parse allowTrailing t = (r, t.skip k) := by
  obtain ⟨k, hk, hskip, -⟩ := e.parse_stops allowTrailing hsame.closed.1
  have hkj : k ≤ j := hk.le_of_end hend
  cases hr : e.parse allowTrailing s with
  | mk r s' =>
    obtain rfl : s' = s.skip k := by rw [← hskip, hr]
    refine ⟨r, k, hkj, rfl, ?_⟩
    match r with
    | .ok x => exact parse_ok_of_shares hr hk (hsame.mono (by omega))
    | .error (.misuse m) => exact absurd hr (e.parse_fair allowTrailing s hv m _)
    | .error (.fault f) =>
      refine parse_fault_of_shares hr hk (hsame.mono ?_)
      rcases f.lag_cases (s.skip k) with hlag | ⟨hlag, hname, -⟩
      · omega
      · -- the name is taken for no end of input, so the token behind it is at most the end that is shared
        have hne : k ≠ j := by
          rintro rfl
          rw [Stream.peek_skip] at hname
          simp [Token.isEnd, hname] at hend
        omega

/-- **The tokens that were looked at decide a parse.** Let a new stream over any tokens be parsed. If a tree comes of
it, so it does on every stream that has the same tokens through the one where the first parse has come to. If a fault
does, its token is the one where the parse has come to, or, when a statement is refused, the one behind that, and the
same fault comes of every stream that has the same tokens through this one. Either way both streams are left at the same
place. And where numerals carry their values, tokens behind an end of input change nothing. -/
theorem parse_of_same_tokens (e : Entry) (allowTrailing : Bool) (as : List Token) :
    let A := Stream.ofTokens as
    (∀ x A', e.parse allowTrailing A = (.ok x, A') → ∀ bs,
        (Stream.ofTokens bs).pending.take (A'.index + 1) = A.pending.take (A'.index + 1) →
        ∃ B', e.parse allowTrailing (.ofTokens bs) = (.ok x, B') ∧ B'.index = A'.index) ∧
      (∀ f A', e.parse allowTrailing A = (.error (.fault f), A') →
        ∃ i, A.pending[i]? = some f.found ∧
          (i = A'.index ∨
            i = A'.index + 1 ∧ A'.peek.kind = .symbol ∧ ∃ forms, f = .noProduction "statement" f.found forms) ∧
          ∀ bs, (Stream.ofTokens bs).pending.take (i + 1) = A.pending.take (i + 1) →
            ∃ B', e.parse allowTrailing (.ofTokens bs) = (.error (.fault f), B') ∧ B'.index = A'.index) ∧
      ((∀ t ∈ as, t.kind = .numeric → ∃ v, t.value = some v) →
        ∀ j t, A.pending[j]? = some t → t.isEnd = true → ∀ bs,
          (Stream.ofTokens bs).pending.take (j + 1) = A.pending.take (j + 1) →
          ∃ r A' B', e.parse allowTrailing A = (r, A') ∧ e.parse allowTrailing (.ofTokens bs) = (r, B') ∧
            B'.index = A'.index) := by
  intro A
  obtain ⟨k, hk, hskip, hfault⟩ := e.parse_stops allowTrailing (Stream.final_ofTokens_isEnd as)
  have hindex : (A.skip k).index = k := Stream.index_skip_ofTokens hk.1
  refine ⟨?_, ?_, ?_⟩
  · intro x A' h bs hbs
    obtain rfl : A' = A.skip k := by rw [← hskip, h]
    rw [hindex] at hbs ⊢
    obtain ⟨hle, hsame⟩ := Stream.shares_of_take hk.1 hbs
    exact ⟨_, parse_ok_of_shares h hk hsame, Stream.index_skip_ofTokens hle⟩
  · intro f A' h
    obtain rfl : A' = A.skip k := by rw [← hskip, h]
    obtain ⟨hfound, hle⟩ := hfault f (by rw [h])
    refine ⟨k + f.lag (A.skip k), by rw [hfound, Stream.getElem?_pending hle], ?_, ?_⟩
    · rw [hindex]
      rcases f.lag_cases (A.skip k) with hlag | ⟨hlag, hname, hforms⟩
      · exact .inl (by omega)
      · exact .inr ⟨by omega, hname, hforms⟩
    · intro bs hbs
      obtain ⟨hle', hsame⟩ := Stream.shares_of_take hle hbs
      rw [hindex]
      exact ⟨_, parse_fault_of_shares h hk hsame, Stream.index_skip_ofTokens (by omega)⟩
  · intro hvalues j t ht hend bs hbs
    have hj : j ≤ A.ahead.length := by
      have := (List.getElem?_eq_some_iff.1 ht).1
      rw [Stream.length_pending] at this
      omega
    have hlook : (A.look j).isEnd = true := by
      rw [Stream.getElem?_pending hj] at ht
      rw [Option.some.inj ht, hend]
    obtain ⟨hle, hsame⟩ := Stream.shares_of_take hj hbs
    obtain ⟨r, m, hmj, hA, hB⟩ :=
      e.parse_of_end_shared allowTrailing (Stream.valued_ofTokens hvalues) hlook hsame
    refine ⟨r, _, _, hA, hB, ?_⟩
    rw [Stream.index_skip_ofTokens (Nat.le_trans hmj hj), Stream.index_skip_ofTokens (Nat.le_trans hmj hle)]

/-- A name alone, and the same name with more behind the end of input: the name is read of both, and as a statement both
are refused for the end of input. -/
theorem parse_of_same_tokens_name :
    let x : Token := ⟨.symbol, "x", 0, 1, ⟨"", 1, 1, 0⟩, none⟩
    let B := Stream.ofTokens [x, x.endAfter, x]
    B.pending.take 2 = (Stream.ofTokens [x]).pending.take 2 ∧
      (∃ B', symbol.parse true B = (.ok (.symbol "x" (some ⟨0, 1⟩)), B') ∧ B'.index = 1) ∧
      (∃ B', statement.parse false B =
        (.error (.fault (.noProduction "statement" x.endAfter ["'name := value.'", "'name = value.'"])), B') ∧
          B'.index = 0) ∧
      ∃ r A' B', program.parse false (.ofTokens [x]) = (r, A') ∧ program.parse false B = (r, B') ∧
        B'.index = A'.index := by
  intro x B
  have hsame : B.pending.take 2 = (Stream.ofTokens [x]).pending.take 2 := rfl
  have hread : symbol.parse true (.ofTokens [x]) =
      (.ok (.symbol "x" (some ⟨0, 1⟩)), { ahead := [], final := x.endAfter, index := 1, reach := 1 }) := by cbv
  have hrefused : statement.parse false (.ofTokens [x]) =
      (.error (.fault (.noProduction "statement" x.endAfter ["'name := value.'", "'name = value.'"])),
        { ahead := [x], final := x.endAfter, index := 0, reach := 0 }) := by cbv
  refine ⟨hsame, (parse_of_same_tokens symbol true [x]).1 _ _ hread _ hsame, ?_,
    (parse_of_same_tokens program false [x]).2.2 (by simp [x]) 1 x.endAfter rfl rfl _ hsame⟩
  obtain ⟨i, hi, hplace, hall⟩ := (parse_of_same_tokens statement false [x]).2.1 _ _ hrefused
  obtain rfl | ⟨rfl, -⟩ := hplace
  · have : x = x.endAfter := Option.some.inj hi
    exact absurd this (by decide)
  · exact hall _ hsame

end Entry

end FrontEnd
