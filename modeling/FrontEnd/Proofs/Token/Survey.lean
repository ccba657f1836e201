import FrontEnd.Proofs.Token.MaximalMunch
import FrontEnd.Proofs.Token.Opening
import FrontEnd.Token.Session

/-!
# Reading on after a refusal

A session that is asked for the next token again and again reads on behind every numeral that is refused and halts at
the first stray character, or at the end of the text. `Lexicon.Survey` says, by ranges alone, what it must find up to
there: tokens and refused numerals in order, blanks between them, and no refused numeral missed. A numeral is refused
because it is above the limit, or because it cannot be compared with the limit.

**`Session.run_next_surveys`**: the answers to any number of calls are those of the one survey of the text, then the
same last answer over and over, and after each call the cursor stands behind what was found. Every refusal is of a
numeral above the limit exactly for the lexical rules that are `Lexicon.Roomy`.
-/

namespace FrontEnd

/-- The offset of the first stray character, or of the end where there is none. -/
def haltAt (source : List Char) : Nat :=
  source.findIdx isStray

/-- A longest run of digits between two offsets, not directly behind a letter or an underscore. -/
structure IsNumeral (source : List Char) (a b : Nat) : Prop where
  nonempty : a < b
  within : b ≤ source.length
  digits : ∀ (i : Nat) (c : Char), a ≤ i → i < b → source[i]? = some c → isDigit c = true
  before : ∀ (i : Nat) (c : Char), i + 1 = a → source[i]? = some c → isDigit c = false ∧ isWordStart c = false
  behind : ∀ c : Char, source[b]? = some c → isDigit c = false

/-- The mark of an offset in a text. -/
def markAt (source : List Char) (n : Nat) : Mark :=
  ((Cursor.ofText source).pass n).mark

variable {source gap w after : List Char} {n : Nat}

/-! ## Places in a text -/

theorem pass_of_append {u : List Char} (h : source.drop n = u ++ after) :
    (Cursor.ofText source).pass (n + u.length) = ⟨(markAt source n).past u, after⟩ := by
  have htake : source.take (n + u.length) = source.take n ++ u := by
    rw [List.take_add, h, List.take_left]
  rw [Cursor.pass, markAt, Cursor.pass, Cursor.ofText, htake, Mark.past_append, drop_of_append h]

theorem offset_markAt (h : n ≤ source.length) : (markAt source n).offset = n := by
  simp [markAt, Cursor.pass, Cursor.ofText, Mark.start, Nat.min_eq_left h]

/-- Reading halts no earlier than behind characters that are not stray. -/
theorem haltAt_of_append {u : List Char} (hu : ∀ c ∈ u, isStray c = false) :
    haltAt (u ++ after) = u.length + haltAt after := by
  rw [haltAt, List.findIdx_append, List.findIdx_eq_length.2 hu, if_neg (Nat.lt_irrefl _), Nat.add_comm]
  rfl

/-! ## Numerals and runs -/

theorem IsNumeral.exists_digit {a b : Nat} (h : IsNumeral source a b) :
    ∃ c, source[a]? = some c ∧ isDigit c = true := by
  have hc := List.getElem?_eq_getElem (Nat.lt_of_lt_of_le h.nonempty h.within)
  exact ⟨_, hc, h.digits a _ (Nat.le_refl a) h.nonempty hc⟩

/-- A longest run of digits holds no numeral but itself. -/
theorem IsNumeral.eq_of_digits {a b : Nat} (h : IsNumeral source a b) (hsrc : source.drop n = w ++ after)
    (hw : ∀ c ∈ w, isDigit c = true) (hafter : begins isDigit after = false) (hna : n ≤ a) (han : a < n + w.length) :
    a = n ∧ b = n + w.length := by
  have hlen := congrArg List.length hsrc
  simp only [List.length_drop, List.length_append] at hlen
  have hwithin := h.within
  have hnonempty := h.nonempty
  have digit : ∀ i, n ≤ i → i < n + w.length → ∃ c, source[i]? = some c ∧ isDigit c = true := by
    intro i hn hi
    have hc := List.getElem?_eq_getElem (l := source) (i := i) (by omega)
    exact ⟨_, hc, hw _ (mem_of_drop hsrc hn hi hc)⟩
  constructor
  · refine Nat.le_antisymm (Nat.le_of_not_lt fun hlt => ?_) hna
    obtain ⟨c, hc, hd⟩ := digit (a - 1) (by omega) (by omega)
    have := (h.before (a - 1) c (by omega) hc).1
    simp [hd] at this
  · rcases Nat.lt_trichotomy b (n + w.length) with hlt | heq | hgt
    · obtain ⟨c, hc, hd⟩ := digit b (by omega) hlt
      have := h.behind c hc
      simp [hd] at this
    · exact heq
    · have hc := List.getElem?_eq_getElem (l := source) (i := n + w.length) (by omega)
      have hd := h.digits _ _ (by omega) hgt hc
      have hhead : after.head? = source[n + w.length]? := by
        rw [← drop_of_append hsrc, List.head?_drop]
      rw [begins, hhead, hc] at hafter
      simp [hd] at hafter

/-- No numeral begins within a word. -/
theorem IsNumeral.not_in_name {a b : Nat} (h : IsNumeral source a b) (hsrc : source.drop n = w ++ after)
    (hw : isName w = true) (hna : n ≤ a) : n + w.length ≤ a := by
  refine Nat.le_of_not_lt fun han => ?_
  obtain ⟨c, hc, hd⟩ := h.exists_digit
  rcases Nat.lt_or_eq_of_le hna with hlt | rfl
  · have hlen := (List.getElem?_eq_some_iff.1 hc).1
    have hc' := List.getElem?_eq_getElem (l := source) (i := a - 1) (by omega)
    have hpart := isWordPart_of_isName hw _ (mem_of_drop hsrc (by omega) (by omega) hc')
    have hbefore := h.before (a - 1) _ (by omega) hc'
    simp [isWordPart, hbefore] at hpart
  · rw [getElem?_of_drop hsrc (Nat.le_refl n) han, Nat.sub_self] at hc
    cases w with
    | nil => simp at hc
    | cons x w =>
      obtain rfl : x = c := by simpa using hc
      simp [isName, isWordStart_of_isDigit hd] at hw

/-- No numeral begins within signs. -/
theorem IsNumeral.not_in_signs {a b : Nat} (h : IsNumeral source a b) (hsrc : source.drop n = w ++ after)
    (hw : ∀ c ∈ w, isWordPart c = false) (hna : n ≤ a) : n + w.length ≤ a := by
  refine Nat.le_of_not_lt fun han => ?_
  obtain ⟨c, hc, hd⟩ := h.exists_digit
  have := hw c (mem_of_drop hsrc hna han hc)
  simp [isWordPart, hd] at this

/-- A digit at the offset does not go on with a word or a numeral. -/
def Detached (source : List Char) (n : Nat) : Prop :=
  begins isDigit (source.drop n) = true → ∀ (i : Nat) (c : Char), i + 1 = n → source[i]? = some c → isWordPart c = false

/-- The answer of a session and the range of characters it is about. -/
structure Finding where
  start : Nat
  stop : Nat
  answer : Session.Answer

namespace Lexicon

/-- The numeral between two offsets, found to be above the limit. -/
def overflow (lx : Lexicon) (file : String) (source : List Char) (a b : Nat) : Finding :=
  ⟨a, b, .fault (.numericOverflow (String.ofList (slice source a b)) lx.limit ((markAt source a).locate file))⟩

/-- The numeral between two offsets, found not to be comparable with the limit. -/
def unjudged (lx : Lexicon) (source : List Char) (a b : Nat) : Finding :=
  ⟨a, b, .misuse (if lx.Writable then .tooManyDigits (lx.maxDigits.getD 0) (significant (slice source a b)).length
    else .tooLong (lx.maxDigits.getD 0))⟩

/-- The numeral between two offsets, refused for the one reason or the other. -/
def rejection (lx : Lexicon) (file : String) (source : List Char) (a b : Nat) : Finding :=
  if lx.Judges (slice source a b) then lx.overflow file source a b else lx.unjudged source a b

/-- What may be found: a lexeme in front of what follows it, or a numeral that is above the limit if it can be compared
with it. -/
inductive Finds (lx : Lexicon) (file : String) (source : List Char) : Finding → Prop
  | token {a b : Nat} {t : Token} : t.start = a → t.stop = b → t.text = String.ofList (slice source a b) →
      t.location = (markAt source a).locate file → lx.Lexeme (source.drop b) t.kind t.text.toList t.value →
      Finds lx file source ⟨a, b, .token t⟩
  | rejection {a b : Nat} : IsNumeral source a b →
      (lx.Judges (slice source a b) → lx.limit < Text.decimalValue (slice source a b)) →
      Finds lx file source (lx.rejection file source a b)

/-- What is found from an offset on, up to where reading halts. -/
structure Survey (lx : Lexicon) (file : String) (source : List Char) (offset : Nat) (found : List Finding) : Prop where
  ordered : found.Pairwise fun x y => x.stop ≤ y.start
  within : ∀ x ∈ found, offset ≤ x.start ∧ x.start < x.stop ∧ x.stop ≤ haltAt source
  blank : ∀ (i : Nat) (c : Char), offset ≤ i → i < haltAt source → source[i]? = some c →
    (∀ x ∈ found, ¬ (x.start ≤ i ∧ i < x.stop)) → isBlank c = true
  finds : ∀ x ∈ found, lx.Finds file source x
  /-- No numeral above the limit is missed, and none that cannot be compared with it. -/
  rejects : ∀ a b : Nat, offset ≤ a → b ≤ haltAt source → IsNumeral source a b →
    (lx.Judges (slice source a b) → lx.limit < Text.decimalValue (slice source a b)) →
    lx.rejection file source a b ∈ found

/-- The refusals among the findings are those of the numerals above the limit. -/
structure Exact (lx : Lexicon) (file : String) (source : List Char) (found : List Finding) : Prop where
  judged : ∀ x ∈ found, ∀ m, x.answer ≠ .misuse m
  overflow_iff : ∀ a b, lx.overflow file source a b ∈ found ↔
    IsNumeral source a b ∧ b ≤ haltAt source ∧ lx.limit < Text.decimalValue (slice source a b)

/-- The answer where reading halts. -/
def haltAnswer (file : String) (source : List Char) : Session.Answer :=
  match source.drop (haltAt source) with
  | [] => .token (.ending file (markAt source (haltAt source)))
  | x :: _ => .fault (.unknownCharacter (String.singleton x) ((markAt source (haltAt source)).locate file))

/-- Where the cursor is left by a number of calls: behind the last thing found, or where reading halts. -/
def placeAfter (halt : Nat) : Nat → List Finding → Nat → Nat
  | offset, _, 0 => offset
  | _, [], _ + 1 => halt
  | _, x :: found, n + 1 => placeAfter halt x.stop found n

variable {lx : Lexicon} {file : String} {x : Finding} {found : List Finding}

/-- Behind what was read, digits begin a numeral. -/
theorem detached_of_lexeme {k : Kind} {v : Option Int} (hsrc : source.drop n = w ++ after)
    (hl : lx.Lexeme after k w v) : Detached source (n + w.length) := by
  rw [Detached, drop_of_append hsrc]
  rcases hl.chars_class with ⟨_, ha⟩ | ⟨_, ha, -⟩ | hw
  · cases after with
    | nil => simp [begins]
    | cons y after =>
      have hy : isWordPart y = false := ha
      intro hd
      simp [isWordPart, show isDigit y = true from hd] at hy
  · simp [ha]
  · have hpos : 0 < w.length := List.length_pos_iff.2 hl.ne_nil
    exact fun _ i c hi hc => (hw c (mem_of_drop hsrc (by omega) (by omega) hc)).1

theorem Rejected.isNumeral (h : lx.Rejected after w) (hsrc : source.drop n = gap ++ (w ++ after)) (hg : AllBlank gap)
    (hn : Detached source n) : IsNumeral source (n + gap.length) (n + gap.length + w.length) := by
  obtain ⟨hne, hdigits, hmax, _⟩ := h
  have hpos : 0 < w.length := List.length_pos_iff.2 hne
  have hlen := congrArg List.length hsrc
  simp only [List.length_drop, List.length_append] at hlen
  have hdrop := drop_of_append hsrc
  refine ⟨by omega, by omega, fun i c hi hb hc => hdigits c (mem_of_drop hdrop hi hb hc), fun i c hi hc => ?_,
    fun c hc => ?_⟩
  · by_cases hgap : n ≤ i
    · have hb := hg c (mem_of_drop hsrc hgap (by omega) hc)
      exact ⟨(blank_class hb).2, (blank_class hb).1⟩
    · -- nothing lies between: the digits stand right at the offset
      obtain rfl : gap = [] := List.length_eq_zero_iff.1 (by omega)
      have hd : begins isDigit (source.drop n) = true := by
        rw [hsrc]
        cases w with
        | nil => exact absurd rfl hne
        | cons d w => exact hdigits d List.mem_cons_self
      have := hn hd i c (by simpa using hi) hc
      simpa [isWordPart, and_comm] using this
  · rw [← List.head?_drop, drop_of_append hdrop] at hc
    simpa [begins, hc] using hmax

theorem finds_of_lexeme {k : Kind} {v : Option Int} (file : String) (hsrc : source.drop n = gap ++ (w ++ after))
    (hl : lx.Lexeme after k w v) :
    lx.Finds file source
      ⟨n + gap.length, n + gap.length + w.length, .token (Piece.token file (markAt source n) ⟨gap, k, w, v⟩)⟩ := by
  have hw := drop_of_append hsrc
  have hn : n ≤ source.length := by
    have hlen := congrArg List.length hsrc
    have hpos : 0 < w.length := List.length_pos_iff.2 hl.ne_nil
    simp only [List.length_drop, List.length_append] at hlen
    omega
  have hmark : markAt source (n + gap.length) = (markAt source n).past gap := by rw [markAt, pass_of_append hsrc]
  have hslice : String.ofList w =
      String.ofList (slice source (n + gap.length : Nat) (n + gap.length + w.length : Nat)) := by
    rw [slice_of_append hw]
  refine .token ?_ ?_ hslice (by rw [hmark]; rfl) ?_
  · simp [Piece.token, offset_markAt hn]
  · simp [Piece.token, Piece.mark, offset_markAt hn]
  · rw [drop_of_append hw]
    simpa [Piece.token] using hl

theorem Rejected.above (h : lx.Rejected after w) : lx.Judges w → lx.limit < Text.decimalValue w := by
  rcases h.reason with ⟨-, he, -⟩ | ⟨hj, -⟩
  · exact fun _ => he.above
  · exact fun hj' => absurd hj' hj

theorem finds_of_rejected (file : String) (hr : lx.Rejected after w) (hsrc : source.drop n = gap ++ (w ++ after))
    (hg : AllBlank gap) (hn : Detached source n) :
    lx.Finds file source (lx.rejection file source (n + gap.length) (n + gap.length + w.length)) := by
  refine .rejection (hr.isNumeral hsrc hg hn) ?_
  rw [slice_of_append (drop_of_append hsrc)]
  exact hr.above

/-- What is answered for a refused numeral. -/
theorem answer_rejection (file : String) (hr : lx.Rejected after w) (hsrc : source.drop n = w ++ after) :
    (lx.rejection file source n (n + w.length)).answer =
      .ofRefusal (lx.refusal w ((markAt source n).locate file)) := by
  rw [rejection, overflow, unjudged, slice_of_append hsrc]
  rcases hr.reason with ⟨hj, -, hrefusal⟩ | ⟨hj, m, hm, hrefusal⟩
  · rw [if_pos hj, hrefusal]
    rfl
  · rw [if_neg hj, hrefusal]
    rw [value?_of_not_judges hr.digits hj] at hm
    rw [Except.error.inj hm]
    rfl

/-- No refused numeral begins within a lexeme. -/
theorem Lexeme.no_rejection {k : Kind} {v : Option Int} {a b : Nat} (hl : lx.Lexeme after k w v)
    (hsrc : source.drop n = w ++ after) (h : IsNumeral source a b)
    (habove : lx.Judges (slice source a b) → lx.limit < Text.decimalValue (slice source a b)) (hna : n ≤ a) :
    n + w.length ≤ a := by
  rcases hl.chars_class with ⟨hw, _⟩ | ⟨hw, hafter, hwr, hlimit⟩ | hw
  · exact h.not_in_name hsrc hw hna
  · refine Nat.le_of_not_lt fun han => ?_
    obtain ⟨rfl, rfl⟩ := h.eq_of_digits hsrc hw hafter hna han
    rw [slice_of_append hsrc] at habove
    have := habove (hwr.judges hw hlimit)
    omega
  · exact h.not_in_signs hsrc (fun c hc => (hw c hc).1) hna

/-! ## Finding one thing more -/

theorem Survey.nil (hgap : source.drop n = gap ++ after) (hg : AllBlank gap) (hhalt : haltAt source = n + gap.length) :
    lx.Survey file source n [] where
  ordered := .nil
  within := by simp
  blank i c hn hi hc _ := hg c (mem_of_drop hgap hn (by omega) hc)
  finds := by simp
  rejects a b hn hb hnum _ := by
    obtain ⟨c, hc, hd⟩ := hnum.exists_digit
    have hlt := hnum.nonempty
    have := (blank_class (hg c (mem_of_drop hgap hn (by omega) hc))).2
    simp [hd] at this

/-- Something found behind a gap of blanks, in front of what is surveyed already. -/
theorem Survey.cons (hsrc : source.drop n = gap ++ (w ++ after)) (hg : AllBlank gap) (hw : w ≠ [])
    (hstart : x.start = n + gap.length) (hstop : x.stop = n + gap.length + w.length) (hhalt : x.stop ≤ haltAt source)
    (hx : lx.Finds file source x)
    (hnum : ∀ a b, IsNumeral source a b →
      (lx.Judges (slice source a b) → lx.limit < Text.decimalValue (slice source a b)) → x.start ≤ a → a < x.stop →
        lx.rejection file source a b = x)
    (h : lx.Survey file source x.stop found) : lx.Survey file source n (x :: found) where
  ordered := .cons (fun y hy => (h.within y hy).1) h.ordered
  within := by
    have hpos : 0 < w.length := List.length_pos_iff.2 hw
    refine List.forall_mem_cons.2 ⟨by omega, fun y hy => ?_⟩
    have := h.within y hy
    omega
  blank i c hn hi hc hout := by
    obtain ⟨hout, hrest⟩ := List.forall_mem_cons.1 hout
    by_cases hlt : i < n + gap.length
    · exact hg c (mem_of_drop hsrc hn hlt hc)
    · exact h.blank i c (by omega) hi hc hrest
  finds := List.forall_mem_cons.2 ⟨hx, h.finds⟩
  rejects a b hn hb hab hlt := by
    obtain ⟨c, hc, hd⟩ := hab.exists_digit
    by_cases hgap : a < n + gap.length
    · have := (blank_class (hg c (mem_of_drop hsrc hn hgap hc))).2
      simp [hd] at this
    · by_cases hstop' : a < x.stop
      · rw [hnum a b hab hlt (by omega) hstop']
        exact List.mem_cons_self
      · exact List.mem_cons_of_mem _ (h.rejects a b (by omega) hb hab hlt)

/-! ## Exact surveys -/

@[simp]
theorem start_rejection (lx : Lexicon) (file : String) (source : List Char) (a b : Nat) :
    (lx.rejection file source a b).start = a := by
  unfold rejection
  split <;> rfl

@[simp]
theorem stop_rejection (lx : Lexicon) (file : String) (source : List Char) (a b : Nat) :
    (lx.rejection file source a b).stop = b := by
  unfold rejection
  split <;> rfl

theorem Finds.of_overflow {a b : Nat} (h : lx.Finds file source (lx.overflow file source a b)) :
    IsNumeral source a b ∧ (lx.Judges (slice source a b) → lx.limit < Text.decimalValue (slice source a b)) := by
  generalize hx : lx.overflow file source a b = x at h
  cases h with
  | token => cases hx
  | rejection hnum habove =>
    obtain rfl := (congrArg Finding.start hx).trans (start_rejection ..)
    obtain rfl := (congrArg Finding.stop hx).trans (stop_rejection ..)
    exact ⟨hnum, habove⟩

theorem Survey.exact (h : lx.Survey file source 0 found) (hroomy : lx.Roomy) : lx.Exact file source found where
  judged x hx m := by
    cases h.finds x hx with
    | token => exact nofun
    | rejection =>
      rw [rejection, if_pos (hroomy.judges _)]
      exact nofun
  overflow_iff a b := by
    constructor
    · intro hx
      obtain ⟨hnum, habove⟩ := (h.finds _ hx).of_overflow
      exact ⟨hnum, (h.within _ hx).2.2, habove (hroomy.judges _)⟩
    · rintro ⟨hnum, hb, habove⟩
      have hmem := h.rejects a b (Nat.zero_le a) hb hnum fun _ => habove
      rwa [rejection, if_pos (hroomy.judges _)] at hmem

theorem isNumeral_digits (hne : w ≠ []) (hw : ∀ d ∈ w, isDigit d = true) : IsNumeral w 0 w.length where
  nonempty := List.length_pos_iff.2 hne
  within := Nat.le_refl _
  digits i c _ _ hc := hw c (List.mem_of_getElem? hc)
  before i c hi := by omega
  behind c hc := by simp at hc

/-- A run of digits that is not judged is found not to be. -/
theorem Survey.unjudged_mem (h : lx.Survey file w 0 found) (hne : w ≠ []) (hw : ∀ d ∈ w, isDigit d = true)
    (hj : ¬ lx.Judges w) : lx.unjudged w 0 w.length ∈ found := by
  have hhalt : haltAt w = w.length := by
    have hstray : ∀ c ∈ w, isStray c = false := fun c hc => by simp [isStray, isWordPart_of_isDigit (hw c hc)]
    rw [← List.append_nil w, haltAt_of_append hstray, List.length_append]
    rfl
  have hslice : slice w (0 : Nat) w.length = w := by simp [slice]
  have hmem := h.rejects 0 w.length (Nat.zero_le 0) (Nat.le_of_eq hhalt.symm) (isNumeral_digits hne hw)
  rw [hslice, rejection, hslice, if_neg hj] at hmem
  exact hmem fun hj' => absurd hj' hj

end Lexicon

/-! ## Calls one after another -/

namespace Session

open Lexicon

variable {lx : Lexicon} {file : String} {s s' : Session} {a : Answer}

/-- The session on a text, with its cursor at an offset. -/
def standing (lx : Lexicon) (file : String) (source : List Char) (n : Nat) : Session :=
  { Session.start source file lx with cursor := (Cursor.ofText source).pass n }

theorem run_replicate_succ (h : s.next = (a, s')) (n : Nat) :
    s.run (List.replicate (n + 1) .next) =
      (a :: (s'.run (List.replicate n .next)).1, (s'.run (List.replicate n .next)).2) := by
  rw [List.replicate_succ, run, step, h]

/-- An answer that leaves the session as it is comes again and again. -/
theorem run_replicate_of_fixed (h : s.next = (a, s)) (n : Nat) :
    s.run (List.replicate n .next) = (List.replicate n a, s) := by
  induction n with
  | zero => rfl
  | succ n ih => rw [run_replicate_succ h, ih, List.replicate_succ]

/-- A token is read, and the cursor stands behind it. -/
theorem next_standing_ok {t : Token} (hsrc : source.drop n = gap ++ (w ++ after))
    (h : lx.next file ((Cursor.ofText source).pass n) = (.ok t, ⟨((markAt source n).past gap).past w, after⟩)) :
    (standing lx file source n).next = (.token t, standing lx file source (n + gap.length + w.length)) := by
  rw [standing, standing, Nat.add_assoc, ← List.length_append, pass_of_append (by rw [hsrc, List.append_assoc])]
  simp [next, start, h, Mark.past_append]

/-- A refusal is met, and the cursor is left behind what was read until then. -/
theorem next_standing_error {e : LexicalRefusal} (hsrc : source.drop n = gap ++ (w ++ after))
    (h : lx.next file ((Cursor.ofText source).pass n) = (.error e, ⟨((markAt source n).past gap).past w, after⟩)) :
    (standing lx file source n).next = (.ofRefusal e, standing lx file source (n + gap.length + w.length)) := by
  rw [standing, standing, Nat.add_assoc, ← List.length_append, pass_of_append (by rw [hsrc, List.append_assoc])]
  simp [next, start, h, Mark.past_append]

/-- The answers to any number of calls from an offset on, and the session after them. -/
def Reports (lx : Lexicon) (file : String) (source : List Char) (offset : Nat) (found : List Finding) : Prop :=
  ∀ n, (standing lx file source offset).run (List.replicate n .next) =
    ((found.map Finding.answer).take n ++ List.replicate (n - found.length) (haltAnswer file source),
      standing lx file source (placeAfter (haltAt source) offset found n))

theorem Reports.cons {x : Finding} {found : List Finding}
    (hx : (standing lx file source n).next = (x.answer, standing lx file source x.stop))
    (h : Reports lx file source x.stop found) : Reports lx file source n (x :: found) := by
  intro k
  cases k with
  | zero => simp [run, placeAfter]
  | succ k =>
    rw [run_replicate_succ hx, h k]
    simp [placeAfter]

/-- Where nothing is left to find, the first call goes to the halt and the others stay there. -/
theorem Reports.nil
    (h : (standing lx file source n).next = (haltAnswer file source, standing lx file source (haltAt source)))
    (h' : (standing lx file source (haltAt source)).next =
      (haltAnswer file source, standing lx file source (haltAt source))) : Reports lx file source n [] := by
  intro k
  cases k with
  | zero => rfl
  | succ k =>
    rw [run_replicate_succ h, run_replicate_of_fixed h']
    simp [placeAfter, List.replicate_succ]

/-- Behind blanks, at the end or at a stray character. -/
theorem next_to_halt (hsrc : source.drop n = gap ++ after) (hg : AllBlank gap) (hhalt : haltAt source = n + gap.length)
    (hafter : after = [] ∨ ∃ x xs, after = x :: xs ∧ isStray x = true) :
    (standing lx file source n).next = (haltAnswer file source, standing lx file source (haltAt source)) := by
  have hmark : markAt source (haltAt source) = (markAt source n).past gap := by
    rw [markAt, hhalt, pass_of_append hsrc]
  have hdrop : source.drop (haltAt source) = after := by rw [hhalt, drop_of_append hsrc]
  rw [haltAnswer, hdrop, hmark, hhalt]
  rcases hafter with rfl | ⟨x, xs, rfl, hx⟩
  · have hrest : ((Cursor.ofText source).pass n).rest = gap := by
      rw [Cursor.rest_pass, ← List.append_nil gap]
      exact hsrc
    refine next_standing_ok (w := []) hsrc ?_
    rw [next_of_blank (by rwa [hrest]), hrest]
    rfl
  · exact next_standing_error (w := []) hsrc (next_of_stray hsrc hg hx)

/-- Where only blanks are left before the halt, nothing is found. -/
theorem exists_survey_nil (lx : Lexicon) (file : String) (hsrc : source.drop n = gap ++ after) (hg : AllBlank gap)
    (hn : haltAt source = n + haltAt (source.drop n))
    (hafter : after = [] ∨ ∃ x xs, after = x :: xs ∧ isStray x = true) :
    ∃ found, lx.Survey file source n found ∧ Reports lx file source n found := by
  have hzero : haltAt after = 0 := by
    rcases hafter with rfl | ⟨x, xs, rfl, hx⟩
    · rfl
    · simp [haltAt, List.findIdx_cons, hx]
  have hhalt : haltAt source = n + gap.length := by
    rw [hn, hsrc, haltAt_of_append fun c hc => isStray_of_isBlank (hg c hc), hzero, Nat.add_zero]
  have hdrop : source.drop (haltAt source) = [] ++ after := by rw [hhalt, drop_of_append hsrc, List.nil_append]
  exact ⟨[], .nil hsrc hg hhalt, .nil (next_to_halt hsrc hg hhalt hafter)
    (next_to_halt hdrop (by simp [AllBlank]) rfl hafter)⟩

/-- A lexeme in front of what is surveyed already. -/
theorem exists_survey_lexeme {k : Kind} {v : Option Int} (hsrc : source.drop n = gap ++ (w ++ after))
    (hg : AllBlank gap) (hl : lx.Lexeme after k w v) (hhalt : n + gap.length + w.length ≤ haltAt source)
    (h : ∃ found, lx.Survey file source (n + gap.length + w.length) found ∧
      Reports lx file source (n + gap.length + w.length) found) :
    ∃ found, lx.Survey file source n found ∧ Reports lx file source n found := by
  obtain ⟨found, hsurvey, hreports⟩ := h
  have hw := drop_of_append hsrc
  refine ⟨⟨n + gap.length, n + gap.length + w.length, .token (Piece.token file (markAt source n) ⟨gap, k, w, v⟩)⟩ ::
    found, hsurvey.cons hsrc hg hl.ne_nil rfl rfl hhalt ?_ ?_, hreports.cons ?_⟩
  · exact finds_of_lexeme file hsrc hl
  · exact fun a b hab habove hle hlt => absurd hlt (Nat.not_lt.2 (hl.no_rejection hw hab habove hle))
  · exact next_standing_ok hsrc (next_of_piece hsrc hg hl)

/-- A refused numeral in front of what is surveyed already. -/
theorem exists_survey_rejected (hsrc : source.drop n = gap ++ (w ++ after)) (hg : AllBlank gap)
    (hr : lx.Rejected after w) (hd : Detached source n) (hhalt : n + gap.length + w.length ≤ haltAt source)
    (h : ∃ found, lx.Survey file source (n + gap.length + w.length) found ∧
      Reports lx file source (n + gap.length + w.length) found) :
    ∃ found, lx.Survey file source n found ∧ Reports lx file source n found := by
  obtain ⟨found, hsurvey, hreports⟩ := h
  have hw := drop_of_append hsrc
  have hstart := lx.start_rejection file source (n + gap.length) (n + gap.length + w.length)
  have hstop := lx.stop_rejection file source (n + gap.length) (n + gap.length + w.length)
  rw [← hstop] at hhalt hsurvey hreports
  refine ⟨lx.rejection file source (n + gap.length) (n + gap.length + w.length) :: found,
    hsurvey.cons hsrc hg hr.ne_nil hstart hstop hhalt ?_ ?_, hreports.cons ?_⟩
  · exact finds_of_rejected file hr hsrc hg hd
  · rw [hstart, hstop]
    intro a b hab _ hle hlt
    obtain ⟨rfl, rfl⟩ := hab.eq_of_digits hw hr.digits hr.maximal hle hlt
    rfl
  · have hmark : markAt source (n + gap.length) = (markAt source n).past gap := by rw [markAt, pass_of_append hsrc]
    rw [answer_rejection file hr hw, hmark, hstop]
    exact next_standing_error hsrc (next_of_rejected hsrc hg hr)

/-- The induction is on what is left of the text: every call finds something and goes on behind it, or halts. -/
theorem exists_survey (lx : Lexicon) (file : String) (hn : haltAt source = n + haltAt (source.drop n))
    (hd : Detached source n) : ∃ found, lx.Survey file source n found ∧ Reports lx file source n found := by
  induction h : (source.drop n).length using Nat.strongRecOn generalizing n with
  | ind N ih =>
    subst h
    -- behind a gap and something that is not stray and not empty, the survey is there already
    have later : ∀ {gap w after : List Char}, source.drop n = gap ++ (w ++ after) → AllBlank gap → w ≠ [] →
        (∀ c ∈ w, isStray c = false) → Detached source (n + gap.length + w.length) →
        n + gap.length + w.length ≤ haltAt source ∧
          ∃ found, lx.Survey file source (n + gap.length + w.length) found ∧
            Reports lx file source (n + gap.length + w.length) found := by
      intro gap w after hsrc hg hw hs hd'
      have hdrop := drop_of_append (drop_of_append hsrc)
      have hpos : 0 < w.length := List.length_pos_iff.2 hw
      have hhalt : haltAt source = n + gap.length + w.length + haltAt after := by
        rw [hn, hsrc, haltAt_of_append fun c hc => isStray_of_isBlank (hg c hc), haltAt_of_append hs]
        omega
      refine ⟨by omega, ih _ ?_ (by rw [hdrop, hhalt]) hd' rfl⟩
      rw [hdrop, hsrc, List.length_append, List.length_append]
      omega
    generalize hsrc : source.drop n = cs at *
    cases lx.opening cs with
    | blank hg => exact exists_survey_nil lx file (by rw [hsrc, List.append_nil]) hg (by rw [hsrc, hn]) (.inl rfl)
    | stray hg hx => exact exists_survey_nil lx file hsrc hg (by rw [hsrc, hn]) (.inr ⟨_, _, rfl, hx⟩)
    | lexeme hg hl =>
      have hdetached := detached_of_lexeme (drop_of_append hsrc) hl
      obtain ⟨hhalt, hlater⟩ := later rfl hg hl.ne_nil hl.not_stray hdetached
      exact exists_survey_lexeme hsrc hg hl hhalt hlater
    | @rejected gap w after hg hr =>
      have hdetached : Detached source (n + gap.length + w.length) := by
        rw [Detached, drop_of_append (drop_of_append hsrc), hr.maximal]
        exact nofun
      have hstray : ∀ c ∈ w, isStray c = false := fun c hc => by simp [isStray, isWordPart_of_isDigit (hr.digits c hc)]
      obtain ⟨hhalt, hlater⟩ := later rfl hg hr.ne_nil hstray hdetached
      exact exists_survey_rejected hsrc hg hr hd hhalt hlater

/-- **Faults are found exactly**: there is a survey of the whole text such that any number of calls, from a fresh
session on, gives its tokens and refusals in order, then the answer at the halt over and over; and after every call the
cursor stands behind what was found, or at the halt. The refused numerals of every text are those above the limit just
if the limit, with its sign, is no longer than an integer may be that is read. -/
theorem run_next_surveys (lx : Lexicon) (file : String) :
    (∀ source : List Char, ∃ found, lx.Survey file source 0 found ∧
      ∀ n, (Session.start source file lx).run (List.replicate n .next) =
        ((found.map Finding.answer).take n ++ List.replicate (n - found.length) (haltAnswer file source),
          standing lx file source (placeAfter (haltAt source) 0 found n))) ∧
      (lx.Roomy ↔ ∀ source found, lx.Survey file source 0 found → lx.Exact file source found) := by
  have surveyed : ∀ source, ∃ found, lx.Survey file source 0 found ∧ Reports lx file source 0 found :=
    fun source => exists_survey lx file (by simp) (by simp [Detached])
  refine ⟨surveyed, fun h source found hsurvey => hsurvey.exact h, fun h => ?_⟩
  rw [roomy_iff]
  refine fun w hne hw => Classical.byContradiction fun hj => ?_
  obtain ⟨found, hsurvey, -⟩ := surveyed w
  exact (h w found hsurvey).judged _ (hsurvey.unjudged_mem hne hw hj) _ rfl

/-- A session on a run of digits that is not given a value. -/
theorem next_start_of_error {m : Misuse} (hne : w ≠ []) (hw : ∀ d ∈ w, isDigit d = true)
    (hv : lx.value? w = .error m) : (Session.start w file lx).next = (.misuse m, standing lx file w w.length) := by
  have hsrc : w.drop 0 = [] ++ (w ++ []) := (List.append_nil w).symm
  have hnext : (standing lx file w 0).next = _ := next_standing_error hsrc
    (next_of_rejected hsrc nofun (rejected_of_error hne hw rfl hv))
  rw [refusal, hv, List.length_nil, Nat.zero_add] at hnext
  exact hnext

/-- The run is above the limit, and yet it is read, since the limit is as long with its minus sign; but it has a digit
too many for that. -/
theorem run_next_breaks_off :
    (-10 ^ 4299 : Int) < Text.decimalValue (List.replicate 4301 '9') ∧
      ((Session.start (List.replicate 4301 '9') "<unknown>" { limit := -10 ^ 4299 }).run [.next]).1 =
        [.misuse (.tooManyDigits 4300 4301)] := by
  have hneg : (-10 ^ 4299 : Int) < 0 := Int.neg_neg_of_pos (Int.pow_pos (by decide))
  refine ⟨Int.lt_of_lt_of_le hneg (Int.natCast_nonneg _), ?_⟩
  have hne : List.replicate 4301 '9' ≠ [] := mt (List.replicate_eq_nil_iff _).1 (by decide)
  have hvalue : ({ limit := -10 ^ 4299 } : Lexicon).value? (List.replicate 4301 '9') =
      .error (.tooManyDigits 4300 4301) := value?_replicate_of_neg_pow rfl rfl
  rw [run, step, next_start_of_error hne isDigit_of_mem_replicate hvalue]
  rfl

end Session

end FrontEnd
