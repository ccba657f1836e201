import FrontEnd.Proofs.Text.Integer
import FrontEnd.Token.Scan

/-!
# Numerals and the limit

A run of digits is compared with the limit by lengths first, and by values only if it is no longer than the limit
written out. Both ask for a conversion: the limit is written, and a run that is short enough is read. The limit
`Lexicon.maxDigits` on conversions is met by neither of them for the runs that `Lexicon.Judges`; each of these is
compared exactly, whatever zeros it begins with (**`Lexicon.value?_of_judges`**), and any other run is given no value
at all (`Lexicon.value?_of_not_judges`).

Lengths do keep long runs from being read, but the minus sign of a negative limit is counted with its digits. So all
runs are judged exactly where the limit is no longer than `Lexicon.maxDigits` with its sign (`Lexicon.Roomy`,
**`Lexicon.roomy_iff`**).
-/

namespace FrontEnd

namespace Lexicon

/-- Leading zeros do not count. -/
theorem decimalValue_dropWhile (ds : List Char) :
    Text.decimalValue (ds.dropWhile (· == '0')) = Text.decimalValue ds := by
  induction ds with
  | nil => rfl
  | cons d ds ih =>
    by_cases hd : d = '0'
    · subst hd
      rw [List.dropWhile_cons_of_pos (by simp), ih]
      simp [Text.decimalValue, Nat.ofDigitChars_cons]
    · rw [List.dropWhile_cons_of_neg (by simpa using hd)]

theorem decimalValue_significant (ds : List Char) :
    Text.decimalValue (significant ds) = Text.decimalValue ds := by
  rw [← decimalValue_dropWhile ds]
  unfold significant
  split
  · next h => rw [h]; rfl
  · rfl

/-- A digit other than zero is worth its place. -/
theorem pow_length_le_decimalValue {d : Char} (hd : isDigit d = true) (h0 : d ≠ '0') (ds : List Char) :
    10 ^ ds.length ≤ Text.decimalValue (d :: ds) := by
  have hpos : 1 ≤ d.toNat - '0'.toNat := by
    simp only [isDigit, Bool.and_eq_true, decide_eq_true_eq, Char.le_def, UInt32.le_iff_toNat_le] at hd
    have hne : d.toNat ≠ '0'.toNat := fun h => h0 (Char.toNat_inj.1 h)
    have hle : '0'.toNat ≤ d.toNat := hd.1
    omega
  calc 10 ^ ds.length = 10 ^ ds.length * 1 := (Nat.mul_one _).symm
    _ ≤ 10 ^ ds.length * (d.toNat - '0'.toNat) := Nat.mul_le_mul_left _ hpos
    _ ≤ Text.decimalValue (d :: ds) := by
      rw [Text.decimalValue, Nat.ofDigitChars_cons, Nat.ofDigitChars_eq_ofDigitChars_zero]
      simp

/-- A number that is not larger has no more significant digits. -/
theorem length_significant_le {ds : List Char} {v : Int} (hds : ∀ d ∈ ds, isDigit d = true)
    (h : (Text.decimalValue ds : Int) ≤ v) : (significant ds).length ≤ Text.digitCount v := by
  have hk := Text.digitCount_pos v
  cases hd : ds.dropWhile (· == '0') with
  | nil =>
    rw [show significant ds = ['0'] by simp [significant, hd]]
    exact hk
  | cons d rest =>
    have hdig : isDigit d = true := hds d (List.dropWhile_subset _ (by rw [hd]; exact List.mem_cons_self))
    have h0 : d ≠ '0' := by
      have := List.head?_dropWhile_not (· == '0') ds
      simpa [hd] using this
    have hval := pow_length_le_decimalValue hdig h0 rest
    rw [← hd, decimalValue_dropWhile] at hval
    have hlt : v.natAbs < 10 ^ Text.digitCount v := (Text.digitCount_le_iff hk).1 (Nat.le_refl _)
    have hpow : 10 ^ rest.length < 10 ^ Text.digitCount v := by omega
    have hlen := (Nat.pow_lt_pow_iff_right (by decide)).1 hpow
    rw [show significant ds = d :: rest by simp [significant, hd]]
    exact hlen

/-! ## Conversions that are refused -/

/-- The limit can be written out. -/
def Writable (lx : Lexicon) : Prop :=
  Text.Fits lx.maxDigits lx.limit

/-- The limit, with its sign, is no longer than the digits of an integer may be. -/
def Roomy (lx : Lexicon) : Prop :=
  ∀ n ∈ lx.maxDigits, (Text.decimal lx.limit).length ≤ n

/-- The limit can be written out, and the run can be read if it is no longer. -/
def Judges (lx : Lexicon) (ds : List Char) : Prop :=
  lx.Writable ∧ ∀ n ∈ lx.maxDigits, (significant ds).length ≤ (Text.decimal lx.limit).length →
    (significant ds).length ≤ n

instance (lx : Lexicon) : Decidable lx.Writable :=
  inferInstanceAs (Decidable (Text.Fits _ _))

instance (lx : Lexicon) : Decidable lx.Roomy :=
  inferInstanceAs (Decidable (∀ n ∈ lx.maxDigits, (Text.decimal lx.limit).length ≤ n))

instance (lx : Lexicon) (ds : List Char) : Decidable (lx.Judges ds) :=
  inferInstanceAs (Decidable (lx.Writable ∧ ∀ n ∈ lx.maxDigits, _ → _))

variable {lx : Lexicon} {ds : List Char}

theorem Roomy.writable (h : lx.Roomy) : lx.Writable := by
  intro n hn
  have := h n hn
  rw [Text.length_decimal] at this
  omega

theorem Roomy.judges (h : lx.Roomy) (ds : List Char) : lx.Judges ds :=
  ⟨h.writable, fun n hn hle => Nat.le_trans hle (h n hn)⟩

theorem roomy_of_none (h : lx.maxDigits = none) : lx.Roomy := by
  intro n hn
  rw [h] at hn
  cases hn

/-- A limit without a sign is no longer than its digits. -/
theorem Writable.roomy (h : lx.Writable) (hpos : 0 ≤ lx.limit) : lx.Roomy := by
  intro n hn
  rw [Text.length_decimal, if_neg (Int.not_lt.2 hpos)]
  exact h n hn

/-- There is room for the sign of the usual limit. -/
theorem roomy_default (reserved : List String) : ({ reserved } : Lexicon).Roomy := by
  rintro _ ⟨⟩
  show (Text.decimal maxNumeral).length ≤ Text.digitLimit
  decide

theorem significant_ne_nil (ds : List Char) : significant ds ≠ [] := by
  unfold significant
  split
  · exact List.cons_ne_nil _ _
  · assumption

theorem isDigit_of_mem_significant (hds : ∀ d ∈ ds, isDigit d = true) : ∀ d ∈ significant ds, isDigit d = true := by
  unfold significant
  split
  · exact List.forall_mem_singleton.2 rfl
  · exact fun d hd => hds d (List.dropWhile_subset _ hd)

/-- **Where both conversions go through**, a run of digits is within the limit exactly when its value is. -/
theorem value?_of_judges (hds : ∀ d ∈ ds, isDigit d = true) (h : lx.Judges ds) :
    lx.value? ds =
      .ok (if (Text.decimalValue ds : Int) ≤ lx.limit then some (Text.decimalValue ds : Int) else none) := by
  obtain ⟨hwrite, hread⟩ := h
  rw [value?, shownInteger_of_fits hwrite]
  dsimp only
  split
  · next hlong =>
    -- a run that is longer than the limit denotes a number above it
    rw [if_neg]
    intro hle
    have hlen := length_significant_le hds hle
    rw [Text.length_decimal] at hlong
    omega
  · next hshort =>
    rw [Text.readDigits_eq (significant_ne_nil ds) (isDigit_of_mem_significant hds),
      if_pos fun n hn => hread n hn (Nat.not_lt.1 hshort), decimalValue_significant]

/-- **Where one of them does not**, nothing is said of the run. -/
theorem value?_of_not_judges (hds : ∀ d ∈ ds, isDigit d = true) (h : ¬ lx.Judges ds) :
    lx.value? ds = .error (if lx.Writable then .tooManyDigits (lx.maxDigits.getD 0) (significant ds).length
      else .tooLong (lx.maxDigits.getD 0)) := by
  by_cases hwrite : lx.Writable
  · obtain ⟨n, hn, hshort, hlong⟩ : ∃ n ∈ lx.maxDigits, (significant ds).length ≤ (Text.decimal lx.limit).length ∧
        n < (significant ds).length := by
      simpa [Judges, hwrite, and_assoc] using h
    rw [value?, shownInteger_of_fits hwrite, if_pos hwrite]
    dsimp only
    rw [if_neg (Nat.not_lt.2 hshort), Text.readDigits_eq (significant_ne_nil ds) (isDigit_of_mem_significant hds),
      if_neg fun hall => Nat.not_lt.2 (hall n hn) hlong]
    rfl
  · rw [value?, shownInteger_eq, if_neg (show ¬ Text.Fits lx.maxDigits lx.limit from hwrite), if_neg hwrite]

/-- A number within a limit that can be written has no more digits than it. -/
theorem Writable.judges (h : lx.Writable) (hds : ∀ d ∈ ds, isDigit d = true)
    (hle : (Text.decimalValue ds : Int) ≤ lx.limit) : lx.Judges ds :=
  ⟨h, fun n hn _ => Nat.le_trans (length_significant_le hds hle) (h n hn)⟩

/-- The runs that are given a value, and the value they are given. -/
theorem value?_eq_some_iff (hds : ∀ d ∈ ds, isDigit d = true) {v : Int} :
    lx.value? ds = .ok (some v) ↔
      lx.Writable ∧ (Text.decimalValue ds : Int) ≤ lx.limit ∧ v = (Text.decimalValue ds : Int) := by
  by_cases h : lx.Judges ds
  · rw [value?_of_judges hds h]
    split
    · next hle => simp [h.1, hle, eq_comm]
    · next hle => simp [hle]
  · rw [value?_of_not_judges hds h]
    refine ⟨nofun, fun ⟨hwrite, hle, _⟩ => ?_⟩
    exact absurd (hwrite.judges hds hle) h

theorem significant_replicate (n : Nat) : significant (List.replicate (n + 1) '9') = List.replicate (n + 1) '9' := by
  simp [significant, List.replicate_succ, List.dropWhile_cons_of_neg]

theorem isDigit_of_mem_replicate {n : Nat} : ∀ d ∈ List.replicate n '9', isDigit d = true := fun d hd => by
  rw [List.eq_of_mem_replicate hd]
  rfl

/-- A run with one digit more than can be read is not judged, if the limit is no shorter. -/
theorem not_judges_replicate {n : Nat} (hn : lx.maxDigits = some n) (hlong : n < (Text.decimal lx.limit).length) :
    ¬ lx.Judges (List.replicate (n + 1) '9') := by
  rintro ⟨-, hread⟩
  have := hread n hn
  rw [significant_replicate, List.length_replicate] at this
  omega

/-- A power of ten below zero, with as many digits as can be written: a run that is as long as it with its sign is read,
and has too many digits for that. -/
theorem value?_replicate_of_neg_pow {n : Nat} (hn : lx.maxDigits = some (n + 1)) (hlimit : lx.limit = -10 ^ n) :
    lx.value? (List.replicate (n + 2) '9') = .error (.tooManyDigits (n + 1) (n + 2)) := by
  have hcount : Text.digitCount lx.limit = n + 1 := by rw [hlimit, Text.digitCount_neg_pow]
  have hneg : lx.limit < 0 := by
    rw [hlimit]
    exact Int.neg_neg_of_pos (Int.pow_pos (by decide))
  have hwritable : lx.Writable := by
    intro k hk
    obtain rfl : n + 1 = k := Option.some.inj (hn.symm.trans hk)
    exact Nat.le_of_eq hcount
  have hlong : n + 1 < (Text.decimal lx.limit).length := by
    rw [Text.length_decimal, hcount, if_pos hneg]
    exact Nat.lt_succ_self _
  rw [value?_of_not_judges isDigit_of_mem_replicate (not_judges_replicate hn hlong), if_pos hwritable, hn,
    significant_replicate, List.length_replicate]
  rfl

/-- **Lengths keep every run from failing** exactly where there is room for the sign of the limit. -/
theorem roomy_iff : lx.Roomy ↔ ∀ ds : List Char, ds ≠ [] → (∀ d ∈ ds, isDigit d = true) → lx.Judges ds := by
  refine ⟨fun h ds _ _ => h.judges ds, fun h n hn => Nat.le_of_not_lt fun hlong => ?_⟩
  exact not_judges_replicate hn hlong (h _ (by simp) isDigit_of_mem_replicate)

end Lexicon

end FrontEnd
