import FrontEnd.Proofs.Grammar.Language
import FrontEnd.Proofs.Grammar.Lockstep
import FrontEnd.Proofs.Grammar.Refusing
import FrontEnd.Proofs.Token.MaximalMunch

/-!
# Faults are found at the first token that makes them

When a text is refused, the tokens before the offending one can still be completed, by tokens that can be written right
behind them, and nothing that goes on behind the offending one is read (**`Lexicon.fault_at_first`**). The first half is
that refused tokens are viable; the second half is lockstep: whatever begins with the same tokens is refused as well.
-/

namespace FrontEnd

open Piece

/-- The tokens are read as the entry, with nothing left over. -/
def Entry.Reads (e : Entry) (ts : List Token) : Prop :=
  ∃ n, (Parse.named e.name false (.ofTokens ts)).1 = .ok n

/-! ## Streams of token lists -/

namespace Stream

variable {ts : List Token} {t : Token}

theorem ofTokens_concat (ts : List Token) (t : Token) :
    ofTokens (ts ++ [t]) =
      if t.isEnd then { ahead := ts, final := t, index := 0, reach := 0 }
      else { ahead := ts ++ [t], final := t.endAfter, index := 0, reach := 0 } := by
  simp [ofTokens]

/-- A stream shows the tokens it was made from. -/
theorem look_ofTokens {i : Nat} (h : ts[i]? = some t) : (ofTokens ts).look i = t := by
  rcases List.eq_nil_or_concat ts with rfl | ⟨ts, u, rfl⟩
  · simp at h
  rw [List.concat_eq_append] at h ⊢
  rw [ofTokens_concat]
  split
  · rcases Nat.lt_or_ge i ts.length with hi | hi
    · rw [List.getElem?_append_left hi] at h
      simp [look, h]
    · rw [List.getElem?_append_right hi] at h
      obtain ⟨_, rfl⟩ : _ ∧ u = t := by simpa [List.getElem?_singleton] using h
      exact look_of_le hi
  · simp [look, h]

theorem final_ofTokens_isEnd (ts : List Token) : (ofTokens ts).final.isEnd = true := by
  rcases List.eq_nil_or_concat ts with rfl | ⟨ts, u, rfl⟩
  · rfl
  · rw [List.concat_eq_append, ofTokens_concat]
    split
    · assumption
    · rfl

theorem maxDigits_ofTokens (ts : List Token) : (ofTokens ts).maxDigits = some Text.digitLimit := by
  rcases List.eq_nil_or_concat ts with rfl | ⟨ts, u, rfl⟩
  · rfl
  · rw [List.concat_eq_append, ofTokens_concat]
    split <;> rfl

theorem getElem?_pending {s : Stream} {i : Nat} (h : i ≤ s.ahead.length) : s.pending[i]? = some (s.look i) := by
  rcases Nat.lt_or_eq_of_le h with hlt | rfl
  · rw [pending, List.getElem?_append_left hlt]
    simp [look, hlt]
  · rw [pending, List.getElem?_concat_length, look_of_le (Nat.le_refl _)]

/-- Tokens without an end of input get one, wherever it is put. -/
theorem ofTokens_open (h : ∀ t ∈ ts, t.isEnd = false) :
    (ofTokens ts).ahead = ts ∧ ∀ file m, (Token.ending file m).Alike (ofTokens ts).final := by
  rcases List.eq_nil_or_concat ts with rfl | ⟨ts, u, rfl⟩
  · exact ⟨rfl, fun _ _ => ⟨rfl, rfl, rfl⟩⟩
  · rw [List.concat_eq_append] at h ⊢
    rw [ofTokens_concat, if_neg (by simp [h u])]
    exact ⟨rfl, fun _ _ => ⟨rfl, rfl, rfl⟩⟩

end Stream

/-! ## Tokens that cannot be read -/

/-- Streams with the same tokens agree, up to where both may end. -/
theorem agree_of_look {s t : Stream} {k : Nat} (hf : s.final.isEnd = true ∧ t.final.isEnd = true)
    (hd : s.maxDigits = t.maxDigits) (h : ∀ i < k, s.look i = t.look i) (hk : (s.look k).Alike (t.look k))
    (hk' : (s.look k).isEnd = false → s.look k = t.look k) : Likeness.anywhere.Agree (k + 1) s t := by
  have halike : ∀ i < k + 1, (s.look i).Alike (t.look i) := by
    intro i hi
    rcases Nat.lt_succ_iff_lt_or_eq.1 hi with hi | rfl
    · rw [h i hi]
      exact ⟨rfl, rfl, rfl⟩
    · exact hk
  refine ⟨hf, halike, fun i hi _ => ?_, fun i hi hend => ?_⟩
  · obtain ⟨_, htext, hvalue⟩ := halike i hi
    simp only [Parse.reading, htext, hvalue, hd]
  · have hnext : s.look (i + 1) = t.look (i + 1) := by
      rcases Nat.lt_succ_iff_lt_or_eq.1 hi with hi | rfl
      · exact h (i + 1) hi
      · exact hk' hend
    rw [hnext, h i (by omega)]

/-- Token lists that begin with the same tokens. -/
theorem agree_of_take {ts : List Token} {k : Nat} (hk : k < ts.length) (us : List Token) :
    Likeness.anywhere.Agree (k + 1) (.ofTokens ts) (.ofTokens (ts.take (k + 1) ++ us)) := by
  have hlook : ∀ i ≤ k, (Stream.ofTokens ts).look i = (Stream.ofTokens (ts.take (k + 1) ++ us)).look i := by
    intro i hi
    have hget := List.getElem?_eq_getElem (show i < ts.length by omega)
    have htake : (ts.take (k + 1) ++ us)[i]? = ts[i]? := by
      rw [List.getElem?_append_left (by rw [List.length_take]; omega), List.getElem?_take_of_lt (by omega)]
    rw [Stream.look_ofTokens hget, Stream.look_ofTokens (htake.trans hget)]
  refine agree_of_look ⟨Stream.final_ofTokens_isEnd _, Stream.final_ofTokens_isEnd _⟩ ?_
    (fun i hi => hlook i (Nat.le_of_lt hi)) ?_ fun _ => hlook k (Nat.le_refl k)
  · rw [Stream.maxDigits_ofTokens, Stream.maxDigits_ofTokens]
  · rw [hlook k (Nat.le_refl k)]
    exact ⟨rfl, rfl, rfl⟩

/-- The end of input may be left out. -/
theorem agree_without_end {ts : List Token} (h : ∀ t ∈ ts, t.isEnd = false) (file : String) (m : Mark) :
    Likeness.anywhere.Agree (ts.length + 1) (.ofTokens (ts ++ [.ending file m])) (.ofTokens ts) := by
  obtain ⟨hahead, hfinal⟩ := Stream.ofTokens_open h
  rw [Stream.ofTokens_ending]
  refine agree_of_look ⟨rfl, Stream.final_ofTokens_isEnd ts⟩ (Stream.maxDigits_ofTokens ts).symm (fun i hi => ?_) ?_ ?_
  · have hget := List.getElem?_eq_getElem hi
    rw [Stream.look_ofTokens hget]
    simp [Stream.look, hi]
  · rw [Stream.look_of_le (Nat.le_refl _), Stream.look_of_le (Nat.le_of_eq (congrArg List.length hahead))]
    exact hfinal file m
  · rw [Stream.look_of_le (Nat.le_refl _)]
    exact fun hend => absurd hend (by simp [Token.isEnd, Token.ending])

/-- The tokens of a text stand one behind the other, and none before another one is empty. -/
theorem Lexicon.tokens_ordered {lx : Lexicon} {file text : String} {ts : List Token}
    (h : lx.tokenize file text = .ok ts) : ts.Pairwise fun t u => t.start < t.stop ∧ t.stop ≤ u.start := by
  obtain ⟨ps, tail, hj, hb, htext, rfl⟩ := tokenize_eq_ok_iff.1 h
  have hcuts : lx.Cuts text.toList 0 (tokens file .start ps) :=
    cuts_of_joins (m := .start) hj hb (by rw [List.drop_zero, htext]) rfl rfl
  refine List.pairwise_append.2 ⟨?_, List.pairwise_singleton _ _, fun t ht u hu => ?_⟩
  · exact hcuts.ordered.imp_of_mem fun ht _ hle => ⟨(hcuts.within _ ht).2.1, hle⟩
  · obtain rfl := List.mem_singleton.1 hu
    obtain ⟨-, hlt, hle⟩ := hcuts.within t ht
    refine ⟨hlt, ?_⟩
    simp only [Token.ending, Mark.offset_past, Mark.start]
    omega

theorem Lexicon.starts_increase {lx : Lexicon} {file text : String} {ts : List Token}
    (h : lx.tokenize file text = .ok ts) : ts.Pairwise fun t u => t.start < u.start :=
  (tokens_ordered h).imp fun h => Int.lt_of_lt_of_le h.1 h.2

namespace Entry

variable {e : Entry} {s : Stream} {ts us : List Token} {f : SyntaxFault} {n : Nat}

theorem reads_iff : e.Reads ts ↔ ∃ n, (e.parse false (.ofTokens ts)).1 = .ok n := by
  rw [Reads, Parse.named, ofName?_name]

theorem reads_of_derives {x : Node} (h : Derives e ts x)
    (hts : ∀ t ∈ ts, (t.kind = .numeric → ∃ v, t.value = some v) ∧ t.isEnd = false) : e.Reads ts := by
  obtain ⟨hahead, _⟩ := Stream.ofTokens_open fun t ht => (hts t ht).2
  have hvalued : (Stream.ofTokens ts).Valued := fun t ht => (hts t (hahead ▸ ht)).1
  have hends : ∀ t ∈ (Stream.ofTokens ts).ahead, t.isEnd = false := fun t ht => (hts t (hahead ▸ ht)).2
  obtain ⟨n, hn, _⟩ := (parse_iff_derives hvalued hends (Stream.final_ofTokens_isEnd ts)).2 (by rw [hahead]; exact h)
  exact reads_iff.2 ⟨n, hn⟩

/-- Where the offending token stands: some tokens were taken, and it is the next one or the one behind that. -/
theorem exists_refused (lx : Lexicon) (hs : s.Valued) (hends : ∀ t ∈ s.ahead, t.isEnd = false)
    (hfinal : s.final.isEnd = true) (h : (e.parse false s).1 = .error (.fault f)) :
    ∃ n, e.parse false s = (.error (.fault f), s.skip n) ∧ s.Clear n ∧ n + f.lag (s.skip n) ≤ s.ahead.length ∧
      f.found = s.look (n + f.lag (s.skip n)) ∧ Viable lx e (s.ahead.take (n + f.lag (s.skip n))) := by
  cases hr : e.parse false s with
  | mk r s' =>
    obtain rfl : r = .error (.fault f) := by rw [← h, hr]
    obtain ⟨ts, ht, hfound, hv⟩ : Parse.Refused lx e s s' f := parse_refused hs hfinal hr
    have htake : s.ahead.take ts.length = ts := by rw [ht.ahead_eq, List.take_left]
    obtain ⟨rfl, hle⟩ := ht.eq_skip
    have hlag := f.lag_le (s := s.skip ts.length) (by rw [Stream.final_skip, hfinal])
    rw [Stream.ahead_skip, List.length_drop] at hlag
    refine ⟨ts.length, rfl, Stream.clear_of_ahead hends hle, by omega, by rw [hfound, Stream.look_skip], ?_⟩
    rwa [List.take_add, htake, ← Stream.ahead_skip]

/-- Whatever agrees with the stream up to the offending token is refused as well. -/
theorem not_reads_of_agree (h : e.parse false s = (.error (.fault f), s.skip n)) (hn : s.Clear n)
    (hagree : Likeness.anywhere.Agree (n + f.lag (s.skip n) + 1) s (.ofTokens us)) : ¬ e.Reads us := by
  obtain ⟨g, hg, _⟩ := (e.parse_tracks false fun _ => trivial).fault h hn hagree
  rw [reads_iff, hg]
  rintro ⟨n, hn⟩
  cases hn

end Entry

namespace Lexicon

variable {lx : Lexicon} {file : String} {ps : List Piece} {tail : List Char} {e : Entry} {i : Nat}

/-- Viable tokens of a text are completed by tokens that can be written behind them. -/
theorem exists_completion (hj : lx.Joins ps tail) (hv : Viable lx e ((tokens file .start ps).take i)) :
    ∃ us, (∀ u ∈ us, u.isEnd = false) ∧ e.Reads ((tokens file .start ps).take i ++ us) ∧
      (lx.Writable → 0 ≤ lx.limit → ∃ text final,
        lx.tokenize file text = .ok ((tokens file .start ps).take i ++ us ++ [final])) := by
  rw [take_tokens] at hv ⊢
  have hjoins : lx.Joins (ps.take i) (render (ps.drop i) tail) := by
    rw [← List.take_append_drop i ps] at hj
    exact (joins_append.1 hj).1
  have hclass : ∀ t ∈ tokens file .start (ps.take i), (t.kind = .numeric → ∃ v, t.value = some v) ∧ t.isEnd = false :=
    fun t ht => (accepts_of_joins hjoins t ht).token_class
  obtain ⟨qs, hqs, n, hd⟩ := hv file _ fun t ht => stop_of_getLast? ht
  have hfill := token_class_fillers file (Mark.start.past (render (ps.take i) [])) hqs
  refine ⟨_, fun u hu => (hfill u hu).2, Entry.reads_of_derives hd (List.forall_mem_append.2 ⟨hclass, hfill⟩), ?_⟩
  intro hw hl
  obtain ⟨text, m, ht⟩ := tokenize_fillers file hjoins hw hl hqs
  exact ⟨text, _, by rw [ht, tokens_append]⟩

/-- **Faults are found at the first token that makes them.** When an entry is refused, the offending token stands at one
place among the tokens of the text. The tokens before it can be completed, and unless no numeral at all is within the
limit, or the limit cannot be written out, what completes them can be written behind them. With the offending token they
cannot be completed, or, if it is the end of input, are not complete as they are. -/
theorem fault_at_first {text : String} {ts : List Token} {f : SyntaxFault} (h : lx.tokenize file text = .ok ts)
    (hf : (Parse.named e.name false (.ofTokens ts)).1 = .error (.fault f)) :
    ∃ i, (∀ j, ts[j]? = some f.found ↔ j = i) ∧
      (∃ us, (∀ u ∈ us, u.isEnd = false) ∧ e.Reads (ts.take i ++ us) ∧
        (lx.Writable → 0 ≤ lx.limit →
          ∃ text' final, lx.tokenize file text' = .ok (ts.take i ++ us ++ [final]))) ∧
      (f.found.isEnd = false → ∀ us, ¬ e.Reads (ts.take (i + 1) ++ us)) ∧
      (f.found.isEnd = true → ¬ e.Reads (ts.take i)) := by
  have hnodup : ts.Nodup := (starts_increase h).imp fun hlt heq => by simp [heq] at hlt
  obtain ⟨ps, tail, hj, -, -, rfl⟩ := tokenize_eq_ok_iff.1 h
  generalize Mark.start.past text.toList = m at *
  have hclass : ∀ t ∈ tokens file .start ps, _ := fun t ht => (accepts_of_joins hj t ht).token_class
  have hs := Stream.ofTokens_ending (tokens file .start ps) file m
  rw [Parse.named, Entry.ofName?_name] at hf
  obtain ⟨n, hrun, hclear, hle, hfound, hv⟩ := Entry.exists_refused lx (by rw [hs]; exact fun t ht => (hclass t ht).1)
    (by rw [hs]; exact fun t ht => (hclass t ht).2) (Stream.final_ofTokens_isEnd _) hf
  generalize hi : n + f.lag _ = i at *
  rw [hs] at hle hfound hv
  have hget : (tokens file .start ps ++ [.ending file m])[i]? = some f.found := by
    rw [hfound]
    exact Stream.getElem?_pending hle
  obtain ⟨hlt, -⟩ := List.getElem?_eq_some_iff.1 hget
  refine ⟨i, fun j => ⟨fun hj => ?_, fun hj => hj ▸ hget⟩, ?_, fun _ us => ?_, fun hend => ?_⟩
  · exact ((List.getElem?_inj hlt hnodup).1 (hget.trans hj.symm)).symm
  · rw [List.take_append_of_le_length hle]
    exact exists_completion hj hv
  · refine Entry.not_reads_of_agree hrun hclear ?_
    rw [hi]
    exact agree_of_take hlt us
  · obtain rfl : i = (tokens file .start ps).length := by
      refine Nat.le_antisymm hle (Nat.le_of_not_lt fun hlt => ?_)
      rw [List.getElem?_append_left hlt] at hget
      exact absurd hend (by simp [(hclass _ (List.mem_of_getElem? hget)).2])
    rw [List.take_left]
    refine Entry.not_reads_of_agree hrun hclear ?_
    rw [hi]
    exact agree_without_end (fun t ht => (hclass t ht).2) file m

/-- A plus sign can be completed, but not with another one that stands apart. -/
theorem fault_at_first_plus :
    ∃ ts f, ({} : Lexicon).tokenize "" "+ +x" = .ok ts ∧
      (Parse.named "unary_expr" false (.ofTokens ts)).1 = .error (.fault f) ∧ ts[1]? = some f.found ∧
      (∃ us, Entry.unary.Reads (ts.take 1 ++ us)) ∧ ∀ us, ¬ Entry.unary.Reads (ts.take 2 ++ us) := by
  have h : ({} : Lexicon).tokenize "" "+ +x" = .ok [⟨.plus, "+", 0, 1, ⟨"", 1, 1, 0⟩, none⟩,
      ⟨.plus, "+", 2, 3, ⟨"", 1, 3, 2⟩, none⟩, ⟨.symbol, "x", 3, 4, ⟨"", 1, 4, 3⟩, none⟩,
      ⟨.endOfFile, "", 4, 4, ⟨"", 1, 5, 4⟩, none⟩] := by cbv
  have hf : (Parse.named Entry.unary.name false (.ofTokens [⟨.plus, "+", 0, 1, ⟨"", 1, 1, 0⟩, none⟩,
      ⟨.plus, "+", 2, 3, ⟨"", 1, 3, 2⟩, none⟩, ⟨.symbol, "x", 3, 4, ⟨"", 1, 4, 3⟩, none⟩,
      ⟨.endOfFile, "", 4, 4, ⟨"", 1, 5, 4⟩, none⟩])).1 =
        .error (.fault (.noProduction "unary operator" ⟨.plus, "+", 2, 3, ⟨"", 1, 3, 2⟩, none⟩ ["'++'"])) := by cbv
  obtain ⟨i, hi, ⟨us, -, hus, -⟩, hbad, -⟩ := fault_at_first h hf
  obtain rfl : 1 = i := (hi 1).1 rfl
  exact ⟨_, _, h, hf, rfl, ⟨us, hus⟩, hbad rfl⟩

end Lexicon

end FrontEnd
