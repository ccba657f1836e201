import FrontEnd.Fault
import FrontEnd.Node.Basic

/-!
# Full description of a tree

Every field of every node but the spans, as a nested term. Like a source form it breaks off at a numeral with too many
digits; nothing below a node of an unknown type is shown.
-/

namespace FrontEnd

namespace Node

/-- A sequence in parentheses; a single item keeps a comma behind it. -/
def tuple : List String → String
  | [item] => "(" ++ item ++ ",)"
  | items => "(" ++ String.intercalate ", " items ++ ")"

/-- A type with its fields. -/
def term (typeName : String) (fields : List (String × String)) : String :=
  typeName ++ "(" ++ String.intercalate ", " (fields.map fun (name, text) => name ++ "=" ++ text) ++ ")"

mutual
def describe (n : Node) (maxDigits : Option Nat := some Text.digitLimit) : Except Misuse String :=
  match n with
  | symbol name _ => .ok (term n.typeName [("name", Text.quoted name)])
  | numeral value _ => do return term n.typeName [("value", ← shownInteger maxDigits value)]
  | truth value _ => .ok (term n.typeName [("value", if value then "True" else "False")])
  | binary l op r _ | comparison l op r _ => do
    return term n.typeName [("left", ← l.describe maxDigits), ("op", Text.quoted op), ("right", ← r.describe maxDigits)]
  | unary op x _ => do return term n.typeName [("op", Text.quoted op), ("operand", ← x.describe maxDigits)]
  | declaration i x _ => do
    return term n.typeName [("identifier", ← i.describe maxDigits), ("init", ← x.describe maxDigits)]
  | assignment i x _ => do
    return term n.typeName [("identifier", ← i.describe maxDigits), ("value", ← x.describe maxDigits)]
  | pragma name x _ => do return term n.typeName [("name", Text.quoted name), ("argument", ← x.describe maxDigits)]
  | block xs _ => do return term n.typeName [("statements", tuple (← descriptions xs maxDigits))]
  | program x _ => do return term n.typeName [("body", ← x.describe maxDigits)]
  | other name _ _ => .ok ("Other(" ++ name ++ ")")
def descriptions (xs : List Node) (maxDigits : Option Nat := some Text.digitLimit) : Except Misuse (List String) :=
  match xs with
  | [] => .ok []
  | x :: xs => do return (← x.describe maxDigits) :: (← descriptions xs maxDigits)
end

theorem descriptions_eq_mapM (xs : List Node) (maxDigits : Option Nat) :
    descriptions xs maxDigits = (xs.map (describe · maxDigits)).mapM id := by
  induction xs with
  | nil => rfl
  | cons x xs ih => rw [descriptions, ih, List.map_cons, List.mapM_cons, id]

/-- **Spans do not show**: trees of one structure are described alike. -/
theorem describe_of_same {a b : Node} {maxDigits : Option Nat} (h : a.same b = true) :
    a.describe maxDigits = b.describe maxDigits := by
  induction a using childInduction generalizing b with
  | step a ih =>
    unfold same at h
    split at h
    case h_13 => cases h
    case h_1 | h_2 | h_3 => simp_all [describe, typeName]
    case h_4 | h_5 =>
      simp only [Bool.and_eq_true, beq_iff_eq] at h
      obtain ⟨⟨hl, rfl⟩, hr⟩ := h
      rw [describe, describe, ih _ (by simp [children]) hl, ih _ (by simp [children]) hr, typeName, typeName]
    case h_6 | h_9 =>
      simp only [Bool.and_eq_true, beq_iff_eq] at h
      obtain ⟨rfl, hx⟩ := h
      rw [describe, describe, ih _ (by simp [children]) hx, typeName, typeName]
    case h_7 | h_8 =>
      obtain ⟨hi, hx⟩ := Bool.and_eq_true_iff.1 h
      rw [describe, describe, ih _ (by simp [children]) hi, ih _ (by simp [children]) hx, typeName, typeName]
    case h_10 xs _ ys _ =>
      have hstatements : xs.map (describe · maxDigits) = ys.map (describe · maxDigits) := map_of_sameAll ih h
      rw [describe, describe, descriptions_eq_mapM, descriptions_eq_mapM, hstatements, typeName, typeName]
    case h_11 => rw [describe, describe, ih _ (by simp [children]) h, typeName, typeName]
    case h_12 =>
      simp only [Bool.and_eq_true, beq_iff_eq] at h
      rw [describe, describe, h.1]

end Node

end FrontEnd
