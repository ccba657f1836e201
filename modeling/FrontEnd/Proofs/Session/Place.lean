import FrontEnd.Proofs.Token.Offset
import FrontEnd.Token.Session

/-!
# Where a session stands

Whatever a session is asked, it stands at an offset of its text with the mark of that offset, and says of every token
and every fault the line and column of the offset they begin at (**`Session.run_located`**). `Session.Answers` says once
what a step can answer and where it leaves the session; what holds of every step is read off it.
-/

namespace FrontEnd

/-! ## Lines and columns -/

/-- The line of the offset `n` begins at the offset `i`: right behind the last line end before `n`, or with the text. -/
structure LineStart (source : List Char) (n i : Nat) : Prop where
  le : i ≤ n
  behind : ∀ j, j + 1 = i → source[j]? = some '\n'
  same : ∀ j, i ≤ j → j < n → source[j]? ≠ some '\n'

/-- The mark is at an offset of the text, on the line and in the column that the text before it gives. -/
structure Mark.Counted (source : List Char) (m : Mark) : Prop where
  within : m.offset ≤ source.length
  line : m.line = 1 + (source.take m.offset).count '\n'
  column : ∃ i, LineStart source m.offset i ∧ m.column = m.offset - i + 1

namespace Location

/-- The location is that of an offset of the text. -/
def Counted (file : String) (source : List Char) (l : Location) : Prop :=
  ∃ m : Mark, m.Counted source ∧ l = m.locate file

/-- On an earlier line, or before it on the same line. -/
def Precedes (l l' : Location) : Prop :=
  l.line < l'.line ∨ l.line = l'.line ∧ l.column < l'.column

end Location

variable {file : String} {source : List Char} {n n' : Nat}

namespace Mark

theorem counted_start (source : List Char) : Mark.start.Counted source :=
  ⟨Nat.zero_le _, rfl, 0, ⟨Nat.le_refl 0, nofun, fun j _ hj => absurd hj (Nat.not_lt_zero j)⟩, rfl⟩

/-- Moving over one character keeps the count. -/
theorem Counted.step {m : Mark} {c : Char} (h : m.Counted source) (hc : source[m.offset]? = some c) :
    (m.step c).Counted source := by
  obtain ⟨hlt, -⟩ := List.getElem?_eq_some_iff.1 hc
  have htake : source.take (m.offset + 1) = source.take m.offset ++ [c] := by
    rw [List.take_add_one, hc, Option.toList_some]
  obtain ⟨i, hi, hcolumn⟩ := h.column
  by_cases hn : c = '\n'
  · rw [Mark.step, if_pos hn]
    refine ⟨hlt, ?_, m.offset + 1, ⟨Nat.le_refl _, fun j hj => ?_, fun j hj hj' => ?_⟩, by simp⟩
    · simp only [htake, List.count_append, hn, List.count_singleton_self, h.line]
      omega
    · rw [Nat.add_right_cancel hj, hc, hn]
    · exact absurd hj' (Nat.not_lt.2 hj)
  · rw [Mark.step, if_neg hn]
    refine ⟨hlt, ?_, i, ⟨Nat.le_succ_of_le hi.le, hi.behind, fun j hj hj' => ?_⟩, ?_⟩
    · simp [htake, List.count_append, hn, h.line]
    · rcases Nat.lt_succ_iff_lt_or_eq.1 hj' with hj' | rfl
      · exact hi.same j hj hj'
      · rw [hc]
        exact fun heq => hn (Option.some.inj heq)
    · have := hi.le
      simp only [hcolumn]
      omega

theorem Counted.past {m : Mark} {cs rest : List Char} (h : m.Counted source) (hcs : source.drop m.offset = cs ++ rest) :
    (m.past cs).Counted source := by
  induction cs generalizing m with
  | nil => exact h
  | cons c cs ih =>
    have hc : source[m.offset]? = some c := by
      rw [← List.head?_drop, hcs]
      rfl
    have hoffset : (m.step c).offset = m.offset + 1 := by
      unfold Mark.step
      split <;> rfl
    refine ih (h.step hc) ?_
    rw [hoffset]
    exact drop_of_append (u := [c]) hcs

theorem counted_after (source : List Char) (n : Nat) : (Mark.after (source.take n)).Counted source := by
  have hpast : Mark.start.past (source.take n) = Mark.after (source.take n) := Mark.past_after [] (source.take n)
  have hdrop : source.drop Mark.start.offset = source.take n ++ source.drop n := (List.take_append_drop n source).symm
  rw [← hpast]
  exact (counted_start source).past hdrop

/-- Characters lead to a later line, or further on the same line. -/
theorem past_later (m : Mark) (cs : List Char) :
    m.line < (m.past cs).line ∨ m.line = (m.past cs).line ∧ (m.past cs).column = m.column + cs.length := by
  induction cs generalizing m with
  | nil => exact .inr ⟨rfl, rfl⟩
  | cons c cs ih =>
    have hstep : (m.step c).line = m.line + 1 ∨ (m.step c).line = m.line ∧ (m.step c).column = m.column + 1 := by
      unfold step
      split
      · exact .inl rfl
      · exact .inr ⟨rfl, rfl⟩
    have := ih (m.step c)
    rw [past_cons, List.length_cons]
    omega

end Mark

theorem locationAt_counted (file : String) (source : List Char) (n : Nat) :
    (locationAt file source n).Counted file source :=
  ⟨_, Mark.counted_after source n, rfl⟩

theorem offset_locationAt (h : n ≤ source.length) : (locationAt file source n).offset = n := by
  rw [locationAt, Mark.locate, Mark.offset_after_take h]

theorem locationAt_precedes (h : n < n') (hn : n' ≤ source.length) :
    (locationAt file source n).Precedes (locationAt file source n') := by
  obtain ⟨d, rfl⟩ := Nat.exists_eq_add_of_lt h
  have hmark : Mark.after (source.take (n + d + 1)) =
      (Mark.after (source.take n)).past ((source.drop n).take (d + 1)) := by
    rw [Mark.past_after, Nat.add_assoc, List.take_add]
  have hlen : ((source.drop n).take (d + 1)).length = d + 1 := by
    rw [List.length_take, List.length_drop]
    omega
  have hlater := (Mark.after (source.take n)).past_later ((source.drop n).take (d + 1))
  rw [← hmark, hlen] at hlater
  simp only [locationAt, Location.Precedes, Mark.locate]
  omega

/-! ## What is said about places -/

/-- The token says where it begins. -/
def Token.Located (file : String) (source : List Char) (t : Token) : Prop :=
  t.location.offset = t.start ∧ t.location.Counted file source

/-- The fault says where the character stands, or where the run of digits begins, that it is about. -/
def LexicalFault.Located (file : String) (source : List Char) : LexicalFault → Prop
  | unknownCharacter c l => l.Counted file source ∧ ∃ x after, c = String.singleton x ∧ isStray x = true ∧
      source.drop l.offset.toNat = x :: after
  | numericOverflow text limit l => l.Counted file source ∧ ∃ after, source.drop l.offset.toNat = text.toList ++ after ∧
      Lexicon.Excessive { limit := limit } after text.toList

/-- The fault says where it is. A misuse is not about any place. -/
def LexicalRefusal.Located (file : String) (source : List Char) : LexicalRefusal → Prop
  | fault f => f.Located file source
  | misuse _ => True

namespace Session

/-- Every token and every fault says where it is, and of tokens that are given together the later ones are at later
places. -/
def Answer.Located (file : String) (source : List Char) : Answer → Prop
  | .token t => t.Located file source
  | .tokens ts => (∀ t ∈ ts, t.Located file source) ∧ ts.Pairwise fun t u => t.location.Precedes u.location
  | .fault f => f.Located file source
  | .done | .stopped | .misuse _ => True

end Session

namespace Lexicon

variable {lx : Lexicon} {t : Token} {e : LexicalRefusal} {ts : List Token}

/-- A token that was read stands between the offsets where the reading began and stopped. -/
theorem Reads.exists_place (h : lx.Reads file source n (.ok t) n') (hn : n ≤ source.length) :
    ∃ a, n ≤ a ∧ a ≤ n' ∧ a ≤ source.length ∧ t.start = a ∧ t.location = locationAt file source a ∧
      (t.isEnd = false → a < n') := by
  have hwithin := h.within hn
  cases h with
  | ending => exact ⟨source.length, hn, Nat.le_refl _, Nat.le_refl _, rfl, rfl, fun ht => by cases ht⟩
  | @token gap w after k v hsrc hg hl =>
    have hpos := List.length_pos_iff.2 hl.ne_nil
    exact ⟨n + gap.length, by omega, by omega, by omega, rfl, rfl, fun _ => by omega⟩

theorem Reads.token_located (h : lx.Reads file source n (.ok t) n') (hn : n ≤ source.length) :
    t.Located file source := by
  obtain ⟨a, -, -, ha, hstart, hloc, -⟩ := h.exists_place hn
  exact ⟨by rw [hloc, offset_locationAt ha, hstart], hloc ▸ locationAt_counted file source a⟩

theorem Reads.refusal_located (h : lx.Reads file source n (.error e) n') (hn : n ≤ source.length) :
    e.Located file source := by
  have hwithin := h.within hn
  cases h with
  | @rejected gap w after hsrc hg hr =>
    have hle : n + gap.length ≤ source.length := by omega
    obtain ⟨-, he, hfault⟩ | ⟨-, m, -, hmisuse⟩ := hr.reason
    · rw [hfault]
      refine ⟨locationAt_counted file source _, after, ?_, ?_⟩
      · rw [offset_locationAt hle, Int.toNat_natCast, drop_of_append hsrc, String.toList_ofList]
      · rw [String.toList_ofList]
        exact ⟨he.ne_nil, he.digits, he.maximal, he.above⟩
    · rw [hmisuse]
      trivial
  | @stray gap after x hsrc hg hx =>
    refine ⟨locationAt_counted file source _, x, after, rfl, hx, ?_⟩
    rw [offset_locationAt hwithin.2, Int.toNat_natCast, drop_of_append hsrc]

/-- All tokens from an offset on stand behind it, each one behind those before it. -/
theorem ReadsAll.ordered (h : lx.ReadsAll file source n (.ok ts) n') (hn : n ≤ source.length) :
    (∀ t ∈ ts, t.Located file source ∧ ∃ a, n ≤ a ∧ a ≤ source.length ∧ t.location = locationAt file source a) ∧
      ts.Pairwise fun t u => t.location.Precedes u.location := by
  induction h using ReadsAll.ok_induction with
  | ending h ht =>
    obtain ⟨a, hna, -, ha, -, hloc, -⟩ := h.exists_place hn
    exact ⟨List.forall_mem_singleton.2 ⟨h.token_located hn, a, hna, ha, hloc⟩, List.pairwise_singleton _ _⟩
  | token h ht _ ih =>
    obtain ⟨hus, hordered⟩ := ih (h.within hn).2
    obtain ⟨a, hna, -, ha, -, hloc, hlt⟩ := h.exists_place hn
    have han := hlt ht
    refine ⟨List.forall_mem_cons.2 ⟨⟨h.token_located hn, a, hna, ha, hloc⟩, fun u hu => ?_⟩, .cons ?_ hordered⟩
    · obtain ⟨hu, b, hb, hb', hlocu⟩ := hus u hu
      exact ⟨hu, b, by omega, hb', hlocu⟩
    · intro u hu
      obtain ⟨-, b, hb, hb', hlocu⟩ := hus u hu
      rw [hloc, hlocu]
      exact locationAt_precedes (by omega) hb'

theorem ReadsAll.refusal_located {rs : Except LexicalRefusal (List Token)} (h : lx.ReadsAll file source n rs n')
    (hn : n ≤ source.length) (hrs : rs = .error e) : e.Located file source := by
  induction h with
  | ending => cases hrs
  | refusal h =>
    obtain rfl := Except.error.inj hrs
    exact h.refusal_located hn
  | @token _ _ _ _ rs h _ _ ih =>
    cases rs with
    | error g => exact ih (h.within hn).2 hrs
    | ok us => cases hrs

end Lexicon

/-! ## Steps -/

namespace Session

open Lexicon

/-- The answer that gives what was read. -/
def Answer.ofToken : Except LexicalRefusal Token → Answer
  | .ok t => .token t
  | .error e => .ofRefusal e

/-- The answer that gives all that was read. -/
def Answer.ofTokens : Except LexicalRefusal (List Token) → Answer
  | .ok ts => .tokens ts
  | .error e => .ofRefusal e

/-- An iterator that gave this is finished. -/
def Answer.finishes : Answer → Bool
  | .token t => t.isEnd
  | .fault _ | .misuse _ => true
  | _ => false

theorem Answer.finishes_ofRefusal (e : LexicalRefusal) : (Answer.ofRefusal e).finishes = true := by
  cases e <;> rfl

/-- The session reads this text by these rules, and stands at the offset `n`. -/
structure Stands (lx : Lexicon) (file : String) (source : List Char) (n : Nat) (s : Session) : Prop where
  text : s.text = source
  file : s.file = file
  lexicon : s.lexicon = lx
  cursor : s.cursor = .seek source n
  within : n ≤ source.length

/-- What a session at the offset `n` may answer to a step, and the offset it is left at. -/
inductive Answers (lx : Lexicon) (file : String) (source : List Char) (n : Nat) : Step → Answer → Nat → Prop
  | next {r : Except LexicalRefusal Token} {n' : Nat} : lx.Reads file source n r n' →
      Answers lx file source n .next (.ofToken r) n'
  | reset {p : Nat} : p ≤ source.length → Answers lx file source n (.reset p) .done p
  | outside {p : Int} : ¬ (0 ≤ p ∧ p ≤ source.length) →
      Answers lx file source n (.reset p) (.misuse (.positionOutside p source.length)) n
  | tokenize {rs : Except LexicalRefusal (List Token)} {n' : Nat} : lx.ReadsAll file source 0 rs n' →
      Answers lx file source n .tokenize (.ofTokens rs) n'
  | drain {rs : Except LexicalRefusal (List Token)} {n' : Nat} : lx.ReadsAll file source n rs n' →
      Answers lx file source n .drain (.ofTokens rs) n'
  | iterate : Answers lx file source n .iterate .done n
  | advance {i : Nat} {r : Except LexicalRefusal Token} {n' : Nat} : lx.Reads file source n r n' →
      Answers lx file source n (.advance i) (.ofToken r) n'
  | stopped {i : Nat} : Answers lx file source n (.advance i) .stopped n

variable {lx : Lexicon} {s : Session} {st : Step} {a : Answer}

theorem stands_start (lx : Lexicon) (file : String) (source : List Char) :
    Stands lx file source 0 (.start source file lx) :=
  ⟨rfl, rfl, rfl, Cursor.ofText_eq_seek source, Nat.zero_le _⟩

theorem Stands.next (h : Stands lx file source n s) {r : Except LexicalRefusal Token}
    (hr : lx.Reads file source n r n') : s.next = (.ofToken r, { s with cursor := .seek source n' }) := by
  rw [Session.next, h.lexicon, h.file, h.cursor, next_of_reads hr]
  cases r <;> rfl

theorem Stands.drain (h : Stands lx file source n s) {rs : Except LexicalRefusal (List Token)}
    (hrs : lx.ReadsAll file source n rs n') : s.drain = (.ofTokens rs, { s with cursor := .seek source n' }) := by
  rw [Session.drain, h.lexicon, h.file, h.cursor, drain_of_readsAll hrs]
  cases rs <;> rfl

theorem Stands.reset {p : Nat} (h : Stands lx file source n s) (hp : p ≤ source.length) :
    s.reset p = (.done, { s with cursor := .seek source p }) := by
  rw [Session.reset, h.text, if_pos (by omega), Int.toNat_natCast]

theorem Stands.reset_outside {p : Int} (h : Stands lx file source n s) (hp : ¬ (0 ≤ p ∧ p ≤ source.length)) :
    s.reset p = (.misuse (.positionOutside p source.length), s) := by
  rw [Session.reset, h.text, if_neg hp]

theorem Stands.advance {i : Nat} (h : Stands lx file source n s) (hi : s.finished.getD i true = false)
    {r : Except LexicalRefusal Token} (hr : lx.Reads file source n r n') :
    s.advance i = (.ofToken r,
      { s with cursor := .seek source n', finished := s.finished.set i (Answer.ofToken r).finishes }) := by
  rw [Session.advance, hi, if_neg Bool.false_ne_true, h.lexicon, h.file, h.cursor, next_of_reads hr]
  cases r with
  | ok t => rfl
  | error e => rw [Answer.ofToken, Answer.finishes_ofRefusal]

theorem Stands.moved {done : List Bool} (h : Stands lx file source n s) (hn : n' ≤ source.length) :
    Stands lx file source n' { s with cursor := .seek source n', finished := done } :=
  ⟨h.text, h.file, h.lexicon, rfl, hn⟩

/-- **A step answers as it may**, and leaves the session where it says. -/
theorem Stands.step (h : Stands lx file source n s) (st : Step) :
    ∃ n', Answers lx file source n st (s.step st).1 n' ∧ Stands lx file source n' (s.step st).2 := by
  cases st with
  | next =>
    obtain ⟨r, n', hr⟩ := lx.exists_reads file source n
    rw [Session.step, h.next hr]
    exact ⟨n', .next hr, h.moved (hr.within h.within).2⟩
  | reset p =>
    by_cases hp : 0 ≤ p ∧ p ≤ source.length
    · obtain ⟨q, rfl⟩ := Int.eq_ofNat_of_zero_le hp.1
      have hq : q ≤ source.length := by omega
      rw [Session.step, h.reset hq]
      exact ⟨q, .reset hq, h.moved hq⟩
    · rw [Session.step, h.reset_outside hp]
      exact ⟨n, .outside hp, h⟩
  | tokenize =>
    obtain ⟨rs, n', hrs⟩ := lx.exists_readsAll file source (Nat.zero_le _)
    have hreset := h.reset (p := 0) (Nat.zero_le _)
    rw [Session.step, show s.reset 0 = _ from hreset, (h.moved (Nat.zero_le _)).drain hrs]
    exact ⟨n', .tokenize hrs, h.moved (hrs.within (Nat.zero_le _)).2⟩
  | drain =>
    obtain ⟨rs, n', hrs⟩ := lx.exists_readsAll file source h.within
    rw [Session.step, h.drain hrs]
    exact ⟨n', .drain hrs, h.moved (hrs.within h.within).2⟩
  | iterate => exact ⟨n, .iterate, h.text, h.file, h.lexicon, h.cursor, h.within⟩
  | advance i =>
    cases hi : s.finished.getD i true with
    | true =>
      rw [Session.step, Session.advance, if_pos hi]
      exact ⟨n, .stopped, h⟩
    | false =>
      obtain ⟨r, n', hr⟩ := lx.exists_reads file source n
      rw [Session.step, h.advance hi hr]
      exact ⟨n', .advance hr, h.moved (hr.within h.within).2⟩

/-- What is true of a session at some offset is true of it after any steps, and every step of a run has an answer that
it may have. -/
theorem Stands.run (h : Stands lx file source n s) (steps : List Step) :
    (∃ n', Stands lx file source n' (s.run steps).2) ∧
      ∀ a ∈ (s.run steps).1, ∃ m st m', m ≤ source.length ∧ Answers lx file source m st a m' := by
  induction steps generalizing n s with
  | nil => exact ⟨⟨n, h⟩, fun a ha => absurd ha List.not_mem_nil⟩
  | cons st steps ih =>
    obtain ⟨n', ha, hs⟩ := h.step st
    obtain ⟨hlast, hrest⟩ := ih hs
    exact ⟨hlast, List.forall_mem_cons.2 ⟨⟨n, st, n', h.within, ha⟩, hrest⟩⟩

theorem answer_located {e : LexicalRefusal} (h : e.Located file source) : (Answer.ofRefusal e).Located file source := by
  cases e with
  | fault f => exact h
  | misuse m => trivial

theorem Answers.located (h : Answers lx file source n st a n') (hn : n ≤ source.length) : a.Located file source := by
  have all : ∀ {m rs}, m ≤ source.length → lx.ReadsAll file source m rs n' →
      (Answer.ofTokens rs).Located file source := by
    intro m rs hm hrs
    cases rs with
    | ok ts =>
      obtain ⟨hts, hordered⟩ := hrs.ordered hm
      exact ⟨fun t ht => (hts t ht).1, hordered⟩
    | error e => exact answer_located (hrs.refusal_located hm rfl)
  cases h with
  | @next r _ hr | @advance _ r _ hr =>
    cases r with
    | ok t => exact hr.token_located hn
    | error e => exact answer_located (hr.refusal_located hn)
  | tokenize hrs => exact all (Nat.zero_le _) hrs
  | drain hrs => exact all hn hrs
  | reset | outside | iterate | stopped => trivial

/-- **Places are right in every state**: after any steps, also failed ones, the session stands at an offset of its text,
with the line and column that a reset to this offset would give; a reset to a place that the text does not have fails
and changes nothing; and all answers so far say where their tokens and faults are. -/
theorem run_located (lx : Lexicon) (file : String) (source : List Char) (steps : List Step) :
    let r := (Session.start source file lx).run steps
    r.2.cursor.mark.Counted source ∧ r.2.step (.reset r.2.cursor.mark.offset) = (.done, r.2) ∧
      (∀ p : Int, p < 0 ∨ source.length < p →
        r.2.step (.reset p) = (.misuse (.positionOutside p source.length), r.2)) ∧
      ∀ a ∈ r.1, a.Located file source := by
  obtain ⟨⟨n, h⟩, hanswers⟩ := (stands_start lx file source).run steps
  have hmark : ((Session.start source file lx).run steps).2.cursor.mark = Mark.after (source.take n) := by
    rw [h.cursor]
    rfl
  refine ⟨hmark ▸ Mark.counted_after source n, ?_, fun p hp => h.reset_outside (by omega), fun a ha => ?_⟩
  · rw [hmark, Mark.offset_after_take h.within, Session.step, h.reset h.within, ← h.cursor]
  · obtain ⟨m, st, m', hm, ha⟩ := hanswers a ha
    exact ha.located hm

end Session

end FrontEnd
