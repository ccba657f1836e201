import FrontEnd.Fault
import FrontEnd.Node.Basic

/-!
# Source text of a tree

Every known node has a source form: one space around operators and `:=`, none after a unary operator, and one statement
a line. A node of another type has none, and neither has a numeral with too many digits; the first such node met from
left to right is reported.
-/

namespace FrontEnd

namespace Node

mutual
def source (n : Node) (maxDigits : Option Nat := some Text.digitLimit) : Except Misuse String :=
  match n with
  | symbol name _ => .ok name
  | numeral value _ => shownInteger maxDigits value
  | truth value _ => .ok (if value then "true" else "false")
  | binary l op r _ => do return (← l.source maxDigits) ++ " " ++ op ++ " " ++ (← r.source maxDigits)
  | comparison l op r _ => do return (← l.source maxDigits) ++ " " ++ op ++ " " ++ (← r.source maxDigits)
  | unary op x _ => do return op ++ (← x.source maxDigits)
  | declaration i x _ => do return (← i.source maxDigits) ++ " := " ++ (← x.source maxDigits) ++ "."
  | assignment i x _ => do return (← i.source maxDigits) ++ " = " ++ (← x.source maxDigits) ++ "."
  | pragma name x _ => do return "`" ++ name ++ "[" ++ (← x.source maxDigits) ++ "]`"
  | block xs _ => do return String.intercalate "\n" (← sources xs maxDigits)
  | program x _ => x.source maxDigits
  | other name _ _ => .error (.noSourceForm name)
def sources (xs : List Node) (maxDigits : Option Nat := some Text.digitLimit) : Except Misuse (List String) :=
  match xs with
  | [] => .ok []
  | x :: xs => do return (← x.source maxDigits) :: (← sources xs maxDigits)
end

theorem sources_cons_eq_ok {x : Node} {xs : List Node} {maxDigits : Option Nat} {lines : List String} :
    sources (x :: xs) maxDigits = .ok lines ↔
      ∃ a rest, x.source maxDigits = .ok a ∧ sources xs maxDigits = .ok rest ∧ lines = a :: rest := by
  rw [sources]
  cases x.source maxDigits <;> cases sources xs maxDigits <;>
    simp [bind, Except.bind, pure, Except.pure, eq_comm]

theorem source_block_eq_ok {xs : List Node} {sp : Option Span} {maxDigits : Option Nat} {text : String} :
    (block xs sp).source maxDigits = .ok text ↔
      ∃ lines, sources xs maxDigits = .ok lines ∧ String.intercalate "\n" lines = text := by
  rw [source]
  cases sources xs maxDigits <;> simp [bind, Except.bind, pure, Except.pure]

/-- The type and the source form, on one line for a tree that fits on one. -/
def summary (n : Node) (maxDigits : Option Nat := some Text.digitLimit) : Except Misuse String :=
  (n.source maxDigits).map fun text => "<" ++ n.typeName ++ ">:: " ++ text

end Node

end FrontEnd
