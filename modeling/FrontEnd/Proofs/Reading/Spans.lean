import FrontEnd.Reading
import FrontEnd.Proofs.Grammar.Language
import FrontEnd.Proofs.Grammar.Lockstep
import FrontEnd.Proofs.Grammar.Subrun
import FrontEnd.Proofs.Token.Excerpt

/-!
# Spans select the text of a node

The span of a node goes from the first to the last of the tokens it was built from, so the text it selects has just
these tokens, moved to the left, and an end of input behind them. In lockstep with the first reading, the parser of the
node's own entry builds the node again from them, with its spans moved (**`Lexicon.parse_span`**).
-/

namespace FrontEnd

namespace Likeness

/-- Tokens are alike if the second one is the first one moved by `d`. -/
def moved (d : Int) : Likeness where
  token := Token.Moved d
  offset i j := j = i + d
  kind_eq h := h.kind
  text_eq h := h.text
  start h := h.start
  stop h := h.stop

/-- The second stream has the next tokens of the first one, moved, and ends behind them. -/
theorem upto_of_moved {d : Int} {s t : Stream} {xs ys : List Token} (hs : s.ahead = xs ++ ys)
    (h : xs.Forall₂ (Token.Moved d) t.ahead) (hfinal : s.final.isEnd = true ∧ t.final.isEnd = true)
    (hdigits : s.maxDigits = t.maxDigits) : (moved d).Upto xs.length s t := by
  have hlen := h.length_eq
  have htoken : ∀ i < xs.length, Token.Moved d (s.look i) (t.look i) := by
    intro i hi
    have hx : s.look i = xs.get ⟨i, hi⟩ := by
      rw [Stream.look, hs, List.getD_eq_getElem?_getD, List.getElem?_append_left hi, List.getElem?_eq_getElem hi]
      rfl
    have hy : t.look i = t.ahead.get ⟨i, hlen ▸ hi⟩ := by
      rw [Stream.look, List.getD_eq_getElem?_getD, List.getElem?_eq_getElem (hlen ▸ hi)]
      rfl
    rw [hx, hy]
    exact h.get hi (hlen ▸ hi)
  refine ⟨⟨hfinal, htoken, fun i hi _ => ?_, fun i hi _ => ?_⟩, .inl ?_⟩
  · simp only [Parse.reading, (htoken i hi).text, (htoken i hi).value, hdigits]
  · have h₀ := htoken i (by omega)
    have h₁ := htoken (i + 1) hi
    rw [h₁.start, h₀.stop]
    omega
  · rw [Stream.look_of_le (by omega)]
    exact hfinal.2

end Likeness

open Piece

variable {lx : Lexicon} {file : String} {s s' : Stream} {e : Entry} {n : Node} {ps : List Piece}

/-- An entry reads the excerpt as it read the text, if the excerpt has the tokens that were taken, moved. -/
theorem Entry.parse_moved {d : Int} {t : Stream} (xs : List Token) {ys : List Token}
    (h : e.parser s = (.ok n, s.skip xs.length)) (hclear : s.Clear xs.length) (hs : s.ahead = xs ++ ys)
    (hmoved : xs.Forall₂ (Token.Moved d) t.ahead) (hfinal : s.final.isEnd = true ∧ t.final.isEnd = true)
    (hdigits : s.maxDigits = t.maxDigits) (hend : s.peek.isEnd = true → t.peek.start = s.peek.start + d) :
    (e.parse false t).1 = .ok (n.shift d) := by
  have hupto := Likeness.upto_of_moved hs hmoved hfinal hdigits
  obtain ⟨b, hb, hlike⟩ := (e.tracks (L := .moved d) hend).ok h hclear hupto
  obtain rfl := Node.Like.eq_shift hlike
  have hpeek : (t.skip xs.length).peek.isEnd = true := by
    rw [Stream.peek_skip, Stream.look_of_le (Nat.le_of_eq hmoved.length_eq.symm)]
    exact hfinal.2
  rw [parse_eq_ok.2 ⟨hb, hpeek⟩]

namespace Lexicon

variable {pre mid post : List Piece} {p : Piece} {tail : List Char} {m : Mark} {text : String}

/-- The tokens of an excerpt are parsed as such. -/
theorem parse_of_tokenize {init : List Token} (h : lx.tokenize file text = .ok (init ++ [.ending file m]))
    (hn : (e.parse false { ahead := init, final := .ending file m, index := 0, reach := 0 }).1 = .ok n) :
    lx.parse file e.name false text = .ok n := by
  rw [parse, h, Parse.named]
  simp only [Entry.ofName?_name, Stream.ofTokens_ending, hn]
  rfl

/-- A span of no tokens: the empty text is read. -/
theorem parse_span_empty (hfinal : s.final.isEnd = true) (hdigits : s.maxDigits = some Text.digitLimit)
    (h : e.parser s = (.ok n, s)) :
    lx.parse file e.name false (String.ofList (slice text.toList s.peek.start s.peek.start)) =
      .ok (n.shift (-s.peek.start)) := by
  have hslice : String.ofList (slice text.toList s.peek.start s.peek.start) = "" := by simp [slice]
  have htokens : lx.tokenize file "" = .ok ([] ++ [.ending file .start]) :=
    tokenize_eq_ok_iff.2 ⟨[], [], trivial, List.forall_mem_nil _, rfl, rfl⟩
  rw [hslice]
  refine parse_of_tokenize htokens (Entry.parse_moved [] h s.clear_zero rfl .nil ⟨hfinal, rfl⟩ hdigits fun _ => ?_)
  show (0 : Int) = _
  omega

/-- A span of some tokens: the text from the first to the last of them is read. -/
theorem parse_span_taken (hj : lx.Joins (pre ++ (p :: mid ++ post)) tail)
    (htext : text.toList = render (pre ++ (p :: mid ++ post)) tail) (hm : m.offset = (render pre []).length)
    (hs : s.ahead = tokens file m (p :: mid ++ post)) (hfinal : s.final.isEnd = true)
    (hdigits : s.maxDigits = some Text.digitLimit) (h : e.parser s = (.ok n, s.skip (mid.length + 1))) :
    ∃ a b : Nat, s.spanTo (s.skip (mid.length + 1)) = ⟨a, b⟩ ∧ a ≤ b ∧ b ≤ text.toList.length ∧
      lx.parse file e.name false (String.ofList (slice text.toList a b)) = .ok (n.shift (-a)) := by
  obtain ⟨hle, htokens⟩ := tokenize_excerpt file hj htext rfl rfl
  have hahead : s.ahead = tokens file m (p :: mid) ++ tokens file (m.past (render (p :: mid) [])) post := by
    rw [hs, tokens_append]
  have hlen : (tokens file m (p :: mid)).length = mid.length + 1 := length_tokens
  have hclear : s.Clear (tokens file m (p :: mid)).length := by
    have ha : ∀ t ∈ tokens file m (p :: mid ++ post), lx.Accepts t := accepts_of_joins (joins_append.1 hj).2
    refine Stream.clear_of_ahead (fun t ht => (ha t (hs ▸ ht)).token_class.2) ?_
    rw [hahead, List.length_append]
    omega
  have hspan : s.spanTo (s.skip (mid.length + 1)) = ⟨((render pre []).length + p.gap.length : Nat),
      ((render pre []).length + p.gap.length + (render (p.bare :: mid) []).length : Nat)⟩ := by
    have hlast : (tokens file m (p :: mid)).getLast? = some (s.look mid.length) := by
      rw [List.getLast?_eq_getElem?, hlen, Nat.add_sub_cancel, Stream.look, hahead, List.getD_eq_getElem?_getD,
        List.getElem?_append_left (by omega), List.getElem?_eq_getElem (by omega)]
      rfl
    rw [Stream.spanTo_skip (by have := hclear.1; omega), stop_of_getLast? hlast, Stream.peek_eq hahead]
    simp [token, render, bare, hm]
    omega
  refine ⟨_, _, hspan, by omega, hle, parse_of_tokenize htokens ?_⟩
  refine Entry.parse_moved _ (by rw [hlen]; exact h) hclear hahead ?_ ⟨hfinal, rfl⟩ hdigits fun hend => ?_
  · rw [← tokens_bare]
    refine tokens_moved ?_
    rw [Mark.offset_past, hm, show Mark.start.offset = 0 from rfl]
    omega
  · have : s.peek.isEnd = false := hclear.2 0 (by omega)
    simp [this] at hend

/-- The pieces before, between and behind two places. -/
theorem exists_pieces_between {i k : Nat} (h : i + (k + 1) ≤ ps.length) :
    ∃ pre p mid post, ps = pre ++ (p :: mid ++ post) ∧ pre.length = i ∧ mid.length = k := by
  have hmid : ((ps.drop i).take (k + 1)).length = k + 1 := by
    rw [List.length_take, List.length_drop]
    omega
  obtain ⟨p, mid, hp⟩ := List.exists_cons_of_length_eq_add_one hmid
  refine ⟨ps.take i, p, mid, (ps.drop i).drop (k + 1), ?_, ?_, ?_⟩
  · rw [← hp, List.take_append_drop, List.take_append_drop]
  · rw [List.length_take]
    omega
  · simpa [hp] using hmid

/-- A token begins within the text. -/
theorem start_mem_tokens {t : Token} (h : t ∈ tokens file m ps) :
    (m.offset : Int) ≤ t.start ∧ t.start ≤ m.offset + (render ps []).length := by
  induction ps generalizing m with
  | nil => simp [tokens] at h
  | cons q ps ih =>
    rcases List.mem_cons.1 h with rfl | h
    · simp [token, render]
      omega
    · have := ih h
      simp only [Piece.mark, Mark.offset_past] at this
      simp only [render, List.length_append]
      omega

/-- So does the end of input, hence whatever token a stream has next. -/
theorem look_start_within (htext : text.toList = render ps tail) (file : String) (i : Nat) :
    ∃ a : Nat, a ≤ text.toList.length ∧
      ((Stream.ofTokens (tokens file .start ps ++ [.ending file (Mark.start.past text.toList)])).look i).start = a := by
  rw [Stream.ofTokens_ending]
  rcases Nat.lt_or_ge i (tokens file .start ps).length with hi | hi
  · have hlook : ∀ f, (tokens file .start ps).getD i f ∈ tokens file .start ps := fun f => by
      rw [List.getD_eq_getElem?_getD, List.getElem?_eq_getElem hi]
      exact List.getElem_mem hi
    obtain ⟨hlow, hhigh⟩ := start_mem_tokens (hlook (.ending file (Mark.start.past text.toList)))
    obtain ⟨a, ha⟩ := Int.eq_ofNat_of_zero_le (Int.le_trans (Int.natCast_nonneg _) hlow)
    refine ⟨a, ?_, ha⟩
    rw [htext, render_eq_append, List.length_append]
    rw [ha, show Mark.start.offset = 0 from rfl] at hhigh
    omega
  · refine ⟨text.toList.length, Nat.le_refl _, ?_⟩
    rw [Stream.look_of_le hi]
    simp [Token.ending, Mark.start]

/-- Where an entry was read, the text of its span is read again, with all spans moved to the left. -/
theorem parse_spanTo {s₀ : Stream} (hj : lx.Joins ps tail) (htext : text.toList = render ps tail)
    (hs₀ : s₀ = .ofTokens (tokens file .start ps ++ [.ending file (Mark.start.past text.toList)])) (hs : s₀.Onward s)
    (h : e.parser s = (.ok n, s')) :
    ∃ a b : Nat, s.spanTo s' = ⟨a, b⟩ ∧ a ≤ b ∧ b ≤ text.toList.length ∧
      lx.parse file e.name false (String.ofList (slice text.toList a b)) = .ok (n.shift (-a)) := by
  obtain ⟨i, hi, rfl⟩ := hs
  obtain ⟨k, hk, hs'⟩ := e.moves (s₀.skip i)
  rw [h] at hs'
  obtain rfl : s' = (s₀.skip i).skip k := hs'
  have hahead : s₀.ahead = tokens file .start ps := by rw [hs₀, Stream.ofTokens_ending]
  have hfinal : (s₀.skip i).final.isEnd = true := by
    rw [Stream.final_skip, hs₀, Stream.ofTokens_ending]
    rfl
  have hdigits : (s₀.skip i).maxDigits = some Text.digitLimit := by
    rw [Stream.maxDigits_skip, hs₀, Stream.ofTokens_ending]
  cases k with
  | zero =>
    obtain ⟨a, hle, ha⟩ := look_start_within htext file i
    rw [← hs₀, ← Stream.peek_skip] at ha
    refine ⟨a, a, by rw [Stream.skip_zero, Stream.spanTo_self, ha], Nat.le_refl a, hle, ?_⟩
    rw [← ha]
    exact parse_span_empty hfinal hdigits h
  | succ k =>
    rw [Stream.ahead_skip, List.length_drop] at hk
    rw [hahead, length_tokens] at hi hk
    obtain ⟨pre, p, mid, post, rfl, rfl, rfl⟩ := exists_pieces_between (show i + (k + 1) ≤ ps.length by omega)
    refine parse_span_taken hj htext (m := Mark.start.past (render pre [])) (by simp [Mark.start]) ?_ hfinal hdigits h
    rw [Stream.ahead_skip, hahead, tokens_append]
    exact List.drop_left' length_tokens

/-- A tree that was read comes from the parser of an entry, whatever follows. -/
theorem exists_parser_of_named {entry : String} {allowTrailing : Bool}
    (h : Parse.named entry allowTrailing s = (.ok n, s')) : ∃ e : Entry, ∃ s₁, e.parser s = (.ok n, s₁) := by
  unfold Parse.named at h
  cases he : Entry.ofName? entry with
  | none =>
    rw [he] at h
    simp [Parse.misuse] at h
  | some e =>
    rw [he] at h
    obtain ⟨x, s₁, hx, h⟩ := Parse.bind_eq_ok.1 h
    obtain ⟨t, s₂, -, h⟩ := Parse.bind_eq_ok.1 h
    rw [Parse.ite_apply] at h
    split at h
    · obtain ⟨rfl, -⟩ := Parse.pure_eq_ok.1 h
      exact ⟨e, s₁, hx⟩
    · exact absurd h Parse.fail_ne_ok

/-- **Spans are exact**: every node of a tree that was read has a span within the text, and from the text that the span
selects, the entry named after its type reads the node again, with all spans moved to the left. -/
theorem parse_span {entry : String} {allowTrailing : Bool} {tree : Node}
    (h : lx.parse file entry allowTrailing text = .ok tree) :
    ∀ n ∈ tree.walk, ∃ sp e, n.span = some sp ∧ n.entry? = some e ∧ 0 ≤ sp.start ∧ sp.start ≤ sp.stop ∧
      sp.stop ≤ text.length ∧
      lx.parse file e.name false (String.ofList (slice text.toList sp.start sp.stop)) = .ok (n.shift (-sp.start)) := by
  unfold parse at h
  split at h
  case h_1 => cases h
  case h_2 ts ht =>
    obtain ⟨ps, tail, hj, -, htext, rfl⟩ := tokenize_eq_ok_iff.1 ht
    generalize hs₀ : Stream.ofTokens (tokens file .start ps ++ [.ending file (Mark.start.past text.toList)]) = s₀ at h
    cases hr : Parse.named entry allowTrailing s₀ with
    | mk r s' =>
      rw [hr] at h
      cases r with
      | error refusal => cases h
      | ok n₀ =>
        obtain rfl : n₀ = tree := Except.ok.inj h
        obtain ⟨e, s₁, hroot⟩ := exists_parser_of_named hr
        intro n hn
        obtain ⟨e, s₁, s₂, hs, hn⟩ := (Parse.made_here hroot).of_mem_walk n hn
        obtain ⟨⟨e', he', hown⟩, hspan, -⟩ := Entry.built hn
        obtain ⟨a, b, hab, hle, hlen, hparse⟩ := parse_spanTo hj htext hs₀.symm hs hown
        rw [hab] at hspan
        exact ⟨⟨a, b⟩, e', hspan, he', Int.natCast_nonneg a, Int.ofNat_le.2 hle, Int.ofNat_le.2 hlen, hparse⟩

/-- An expression behind a blank, with something left over behind it. -/
theorem parse_span_trailing :
    ∃ tree, ({} : Lexicon).parse "" "expression" true " -a b" = .ok tree ∧
      ∀ n ∈ tree.walk, ∃ sp e, n.span = some sp ∧ n.entry? = some e ∧ 0 ≤ sp.start ∧ sp.start ≤ sp.stop ∧
        sp.stop ≤ " -a b".length ∧
        ({} : Lexicon).parse "" e.name false (String.ofList (slice " -a b".toList sp.start sp.stop)) =
          .ok (n.shift (-sp.start)) := by
  have h : ({} : Lexicon).parse "" "expression" true " -a b" =
      .ok (.unary "-" (.symbol "a" (some ⟨2, 3⟩)) (some ⟨1, 3⟩)) := by
    cbv
  exact ⟨_, h, parse_span h⟩

end Lexicon

end FrontEnd
