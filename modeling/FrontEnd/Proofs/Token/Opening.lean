import FrontEnd.Proofs.Token.Layout

/-!
# How a text opens

Behind its blanks a text ends, begins with a lexeme, begins with a numeral that is given no value, or begins with a
character that is part of no token (**`Lexicon.opening`**). Each opening tells what reading the next token gives and
where it leaves the cursor: past a rejected numeral, but on a stray character. A numeral is rejected because it is above
the limit, or because it cannot be compared with the limit.
-/

namespace FrontEnd

/-- A character that is neither a blank nor part of any token. -/
def isStray (x : Char) : Bool :=
  !(isBlank x || isWordPart x || (punctuation? x).isSome)

/-! ## Character classes -/

theorem isStray_of_isBlank {x : Char} (h : isBlank x = true) : isStray x = false := by
  simp [isStray, h]

theorem stray_class {x : Char} (h : isStray x = true) :
    isBlank x = false ∧ isWordStart x = false ∧ isDigit x = false ∧ punctuation? x = none := by
  simp only [isStray, isWordPart, Bool.not_eq_true', Bool.or_eq_false_iff, Option.isSome_eq_false_iff,
    Option.isNone_iff_eq_none] at h
  exact ⟨h.1.1, h.1.2.1, h.1.2.2, h.2⟩

theorem isBlank_of_isWordPart {x : Char} (h : isWordPart x = true) : isBlank x = false := by
  rw [Bool.eq_false_iff]
  intro hb
  obtain ⟨hs, hd⟩ := blank_class hb
  simp [isWordPart, hs, hd] at h

theorem isWordPart_of_isDigit {x : Char} (h : isDigit x = true) : isWordPart x = true := by
  simp [isWordPart, h]

theorem isWordPart_of_isName {w : List Char} (h : isName w = true) : ∀ y ∈ w, isWordPart y = true := by
  cases w with
  | nil => simp
  | cons y w =>
    simp only [isName, Bool.and_eq_true, List.all_eq_true] at h
    exact List.forall_mem_cons.2 ⟨by simp [isWordPart, h.1], h.2⟩

namespace Lexicon

open Piece

/-- A run of digits that cannot be continued and denotes a number above the limit. -/
structure Excessive (lx : Lexicon) (after w : List Char) : Prop where
  ne_nil : w ≠ []
  digits : ∀ d ∈ w, isDigit d = true
  maximal : begins isDigit after = false
  above : lx.limit < Text.decimalValue w

/-- A run of digits that cannot be continued and is given no value. -/
structure Rejected (lx : Lexicon) (after w : List Char) : Prop where
  ne_nil : w ≠ []
  digits : ∀ d ∈ w, isDigit d = true
  maximal : begins isDigit after = false
  valueless : ∀ v, lx.value? w ≠ .ok (some v)

/-- Why a rejected run that stands at a place is not read. -/
def refusal (lx : Lexicon) (w : List Char) (place : Location) : LexicalRefusal :=
  match lx.value? w with
  | .ok _ => .fault (.numericOverflow (String.ofList w) lx.limit place)
  | .error m => .misuse m

/-- What a text has behind its blanks. -/
inductive Opening (lx : Lexicon) : List Char → Prop
  | blank {cs : List Char} : AllBlank cs → Opening lx cs
  | lexeme {gap w after : List Char} {k : Kind} {v : Option Int} : AllBlank gap → lx.Lexeme after k w v →
      Opening lx (gap ++ (w ++ after))
  | rejected {gap w after : List Char} : AllBlank gap → lx.Rejected after w → Opening lx (gap ++ (w ++ after))
  | stray {gap after : List Char} {x : Char} : AllBlank gap → isStray x = true → Opening lx (gap ++ x :: after)

variable {lx : Lexicon} {file : String} {c : Cursor} {after after' gap w : List Char} {k : Kind} {v : Option Int}
  {x : Char}

/-! ## Characters of a lexeme -/

/-- A lexeme is a word, a numeral or made of signs. -/
theorem Lexeme.chars_class (h : lx.Lexeme after k w v) :
    (isName w = true ∧ begins isWordPart after = false) ∨
      ((∀ y ∈ w, isDigit y = true) ∧ begins isDigit after = false ∧ lx.Writable ∧
        (Text.decimalValue w : Int) ≤ lx.limit) ∨
      ∀ y ∈ w, isWordPart y = false ∧ isBlank y = false ∧ (punctuation? y).isSome = true := by
  cases h with
  | symbol hw _ ha | keyword hw _ ha => exact .inl ⟨hw, ha⟩
  | numeral _ hw ha hwr hl => exact .inr (.inl ⟨hw, ha, hwr, hl⟩)
  | greaterEqual | lessEqual =>
    exact .inr (.inr (List.forall_mem_cons.2 ⟨by decide, List.forall_mem_singleton.2 (by decide)⟩))
  | sign hx hk =>
    obtain ⟨hs, hd, hb⟩ := sign_class hx hk
    refine .inr (.inr fun y hy => ?_)
    obtain rfl := List.mem_singleton.1 hy
    exact ⟨by simp [isWordPart, hs, hd], hb, by rw [hx]; rfl⟩

theorem Lexeme.not_blank (h : lx.Lexeme after k w v) : ∀ y ∈ w, isBlank y = false := by
  rcases h.chars_class with ⟨hw, _⟩ | ⟨hw, _⟩ | hw
  · exact fun y hy => isBlank_of_isWordPart (isWordPart_of_isName hw y hy)
  · exact fun y hy => isBlank_of_isWordPart (isWordPart_of_isDigit (hw y hy))
  · exact fun y hy => (hw y hy).2.1

theorem Lexeme.not_stray (h : lx.Lexeme after k w v) : ∀ y ∈ w, isStray y = false := by
  rcases h.chars_class with ⟨hw, _⟩ | ⟨hw, _⟩ | hw
  · exact fun y hy => by simp [isStray, isWordPart_of_isName hw y hy]
  · exact fun y hy => by simp [isStray, isWordPart_of_isDigit (hw y hy)]
  · exact fun y hy => by simp [isStray, (hw y hy).2.2]

/-- A lexeme sees no more of what follows it than whether this begins with characters of some classes without blanks. -/
theorem Lexeme.transfer (h : lx.Lexeme after k w v)
    (hb : ∀ p : Char → Bool, (∀ y, isBlank y = true → p y = false) → begins p after = false →
      begins p after' = false) : lx.Lexeme after' k w v := by
  cases h with
  | symbol hw hr ha => exact .symbol hw hr (hb _ (fun y hy => by simp [isWordPart, blank_class hy]) ha)
  | keyword hw hr ha => exact .keyword hw hr (hb _ (fun y hy => by simp [isWordPart, blank_class hy]) ha)
  | numeral hne hw ha hwr hl => exact .numeral hne hw (hb _ (fun y hy => (blank_class hy).2) ha) hwr hl
  | greaterEqual => exact .greaterEqual
  | lessEqual => exact .lessEqual
  | sign hx hk ha =>
    refine .sign hx hk fun hcmp => hb _ (fun y hy => ?_) (ha hcmp)
    rw [Bool.eq_false_iff]
    rintro hy'
    obtain rfl : y = '=' := by simpa using hy'
    exact absurd hy (by decide)

/-! ## The four openings -/

theorem opening (lx : Lexicon) (cs : List Char) : lx.Opening cs := by
  obtain ⟨gap, rest, hcs, hg, hrest, -⟩ := (Cursor.ofText cs).exists_run isBlank
  obtain rfl : cs = gap ++ rest := hcs
  cases rest with
  | nil =>
    rw [List.append_nil]
    exact .blank hg
  | cons x xs =>
    have hnb : isBlank x = false := hrest
    by_cases hword : isWordStart x = true
    · obtain ⟨w, after, hc, hw, ha, -⟩ :=
        Cursor.exists_run_cons (c := .ofText (x :: xs)) rfl (p := isWordPart) (by simp [isWordPart, hword])
      obtain hc : x :: xs = x :: w ++ after := hc
      have hname : isName (x :: w) = true := by simpa [isName, hword] using hw
      rw [hc]
      by_cases hr : String.ofList (x :: w) ∈ lx.reserved
      · exact .lexeme hg (.keyword hname hr ha)
      · exact .lexeme hg (.symbol hname hr ha)
    rw [Bool.not_eq_true] at hword
    by_cases hdigit : isDigit x = true
    · obtain ⟨w, after, hc, hw, ha, -⟩ := Cursor.exists_run_cons (c := .ofText (x :: xs)) rfl hdigit
      obtain hc : x :: xs = x :: w ++ after := hc
      have hdigits : ∀ y ∈ x :: w, isDigit y = true := List.forall_mem_cons.2 ⟨hdigit, hw⟩
      rw [hc]
      by_cases hv : ∃ v, lx.value? (x :: w) = .ok (some v)
      · obtain ⟨v, hv⟩ := hv
        obtain ⟨hwr, hl, -⟩ := (value?_eq_some_iff hdigits).1 hv
        exact .lexeme hg (.numeral (by simp) hdigits ha hwr hl)
      · exact .rejected hg ⟨by simp, hdigits, ha, fun v hv' => hv ⟨v, hv'⟩⟩
    rw [Bool.not_eq_true] at hdigit
    cases hp : punctuation? x with
    | none => exact .stray hg (by simp [isStray, isWordPart, hnb, hword, hdigit, hp])
    | some k =>
      have hk : k ≠ .underscore := by
        rintro rfl
        have table : ∀ e ∈ punctuation, e.2 = .underscore → isWordStart e.1 = true := by decide
        simp [table _ (mem_punctuation hp) rfl] at hword
      obtain ⟨w, after, hc, hl, -⟩ := lexeme_of_sign lx xs hp hk
      rw [hc]
      exact .lexeme hg hl

/-! ## What reading gives -/

theorem skipBlanks_eq {rest : List Char} (hc : c.rest = gap ++ rest) (hg : AllBlank gap)
    (hrest : begins isBlank rest = false) : c.skipBlanks = ⟨c.mark.past gap, rest⟩ := by
  rw [Cursor.skipBlanks, Cursor.run_eq hc hg hrest, Cursor.pass, hc]
  simp

/-- Why a rejected numeral is rejected: it is above the limit, or one of the two conversions is refused. -/
theorem Rejected.reason (h : lx.Rejected after w) :
    lx.Judges w ∧ lx.Excessive after w ∧
        (∀ place, lx.refusal w place = .fault (.numericOverflow (String.ofList w) lx.limit place)) ∨
      ¬ lx.Judges w ∧ ∃ m, lx.value? w = .error m ∧ ∀ place, lx.refusal w place = .misuse m := by
  by_cases hj : lx.Judges w
  · left
    have hv := value?_of_judges h.digits hj
    have habove : lx.limit < Text.decimalValue w := by
      rw [← Int.not_le]
      intro hle
      rw [if_pos hle] at hv
      exact h.valueless _ hv
    exact ⟨hj, ⟨h.ne_nil, h.digits, h.maximal, habove⟩, fun place => by rw [refusal, hv]⟩
  · right
    have hv := value?_of_not_judges h.digits hj
    exact ⟨hj, _, hv, fun place => by rw [refusal, hv]⟩

/-- Where there is room for the sign of the limit, only faults are met. -/
theorem Rejected.exists_fault (h : lx.Rejected after w) (hroom : lx.Roomy) (place : Location) :
    ∃ f, lx.refusal w place = .fault f := by
  obtain ⟨-, -, hfault⟩ | ⟨hj, -⟩ := h.reason
  · exact ⟨_, hfault place⟩
  · exact absurd (hroom.judges w) hj

/-- A fault shows the limit, so it is met only where the limit can be written out. -/
theorem Rejected.writable_of_fault (h : lx.Rejected after w) {place : Location} {f : LexicalFault}
    (hf : lx.refusal w place = .fault f) : lx.Writable := by
  obtain ⟨hj, -⟩ | ⟨-, m, -, hm⟩ := h.reason
  · exact hj.1
  · rw [hm] at hf
    cases hf

/-- A numeral above the limit is rejected. -/
theorem Excessive.rejected (h : lx.Excessive after w) : lx.Rejected after w := by
  refine ⟨h.ne_nil, h.digits, h.maximal, fun v hv => ?_⟩
  have habove := h.above
  obtain ⟨-, hle, -⟩ := (value?_eq_some_iff h.digits).1 hv
  omega

theorem rejected_of_error {m : Misuse} (hne : w ≠ []) (hw : ∀ d ∈ w, isDigit d = true)
    (hmax : begins isDigit after = false) (hv : lx.value? w = .error m) : lx.Rejected after w := by
  refine ⟨hne, hw, hmax, fun v hv' => ?_⟩
  rw [hv] at hv'
  cases hv'

/-- The refusal of a rejected numeral, which is taken. -/
theorem next_of_rejected (hc : c.rest = gap ++ (w ++ after)) (hg : AllBlank gap) (h : lx.Rejected after w) :
    lx.next file c =
      (.error (lx.refusal w ((c.mark.past gap).locate file)), ⟨(c.mark.past gap).past w, after⟩) := by
  obtain ⟨hne, hdigits, hmax, hvalueless⟩ := h
  cases w with
  | nil => exact absurd rfl hne
  | cons x xs =>
    have hx : isDigit x = true := hdigits x List.mem_cons_self
    have hnb : begins isBlank (x :: xs ++ after) = false := isBlank_of_isWordPart (isWordPart_of_isDigit hx)
    have hrun : (⟨c.mark.past gap, x :: xs ++ after⟩ : Cursor).run isDigit = (x :: xs).length :=
      Cursor.run_eq rfl hdigits hmax
    rw [next, skipBlanks_eq hc hg hnb, here]
    simp only [List.cons_append, isWordStart_of_isDigit hx, Bool.false_eq_true, if_false, hx, if_true]
    rw [← List.cons_append, numeral, hrun, refusal]
    simp only [List.take_left, Cursor.pass, List.drop_left]
    split
    · next v hv => exact absurd hv (hvalueless v)
    · next hv => rw [hv]
    · next m hv => rw [hv]

/-- The fault of a stray character, which is not taken. -/
theorem next_of_stray (hc : c.rest = gap ++ x :: after) (hg : AllBlank gap) (hx : isStray x = true) :
    lx.next file c = (.error (.fault (.unknownCharacter (String.singleton x) ((c.mark.past gap).locate file))),
      ⟨c.mark.past gap, x :: after⟩) := by
  obtain ⟨hb, hs, hd, hp⟩ := stray_class hx
  rw [next, skipBlanks_eq hc hg (show begins isBlank (x :: after) = false from hb), here]
  simp [hs, hd, hp]

end Lexicon

end FrontEnd
