import FrontEnd.Node.Basic

/-!
# Visits

A visitor handles the node types it names and stops there; at any other node it goes on to the children.
-/

namespace FrontEnd

namespace Node

inductive Visited where
  | handled (typeName : String)
  | passed (typeName : String)
deriving DecidableEq, Repr

def Visited.render : Visited → String
  | handled name => "handler " ++ name ++ " for " ++ name
  | passed name => "generic " ++ name

/-- The nodes a visitor with the given handlers comes to, in order. -/
def visit (handlers : List String) (n : Node) : List Visited :=
  if handlers.contains n.typeName then [.handled n.typeName]
  else
    .passed n.typeName :: n.children.attach.flatMap fun ⟨c, h⟩ =>
      have := sizeOf_lt_of_mem_children h
      visit handlers c
termination_by n

theorem visit_eq (handlers : List String) (n : Node) :
    n.visit handlers =
      if handlers.contains n.typeName then [.handled n.typeName]
      else .passed n.typeName :: n.children.flatMap (visit handlers) := by
  rw [visit]
  simp

/-- **A visit that stops nowhere** passes all nodes of the tree, in the order of `walk`. -/
theorem visit_eq_walk {handlers : List String} {n : Node} (h : ∀ x ∈ n.walk, handlers.contains x.typeName = false) :
    n.visit handlers = n.walk.map fun x => .passed x.typeName := by
  induction n using childInduction with
  | step n ih =>
    rw [walk_eq] at h ⊢
    obtain ⟨hn, hbelow⟩ := List.forall_mem_cons.1 h
    have hchildren : n.children.map (visit handlers) = n.children.map fun c => c.walk.map fun x => .passed x.typeName :=
      List.map_congr_left fun c hc => ih c hc fun x hx => hbelow x (List.mem_flatMap.2 ⟨c, hc, hx⟩)
    rw [visit_eq, hn, List.map_cons, List.map_flatMap, List.flatMap_def, hchildren, ← List.flatMap_def]
    rfl

/-- What the visit gives back: the name of the handler at the root, if there is one. -/
def visitResult (handlers : List String) (n : Node) : String :=
  if handlers.contains n.typeName then n.typeName else "generic"

end Node

end FrontEnd
