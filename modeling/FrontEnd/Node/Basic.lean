/-!
# Syntax trees

The eleven types of node that parsing can build, and `other` for nodes of a type unknown to this library. Any node may
stand below any other; which trees a source text can have is the grammar's business. Every node may carry the span of
offsets it was read from.

* `Node.children` and `Node.walk` see a tree through its children alone.
* `Node.same` compares two trees by structure and ignores spans.
* **`Node.childInduction`**: what holds of a node whenever it holds of its children holds of every tree.
-/

namespace FrontEnd

structure Span where
  start : Int
  stop : Int
deriving DecidableEq, Repr

inductive Node where
  | symbol (name : String) (span : Option Span)
  | numeral (value : Int) (span : Option Span)
  | truth (value : Bool) (span : Option Span)
  | binary (left : Node) (op : String) (right : Node) (span : Option Span)
  | comparison (left : Node) (op : String) (right : Node) (span : Option Span)
  | unary (op : String) (operand : Node) (span : Option Span)
  | declaration (identifier init : Node) (span : Option Span)
  | assignment (identifier value : Node) (span : Option Span)
  | pragma (name : String) (argument : Node) (span : Option Span)
  | block (statements : List Node) (span : Option Span)
  | program (body : Node) (span : Option Span)
  | other (typeName : String) (parts : List Node) (span : Option Span)

namespace Node

def span : Node → Option Span
  | symbol _ s | numeral _ s | truth _ s | binary _ _ _ s | comparison _ _ _ s | unary _ _ s | declaration _ _ s
  | assignment _ _ s | pragma _ _ s | block _ s | program _ s | other _ _ s => s

def typeName : Node → String
  | symbol .. => "SymbolLiteral"
  | numeral .. => "NumericLiteral"
  | truth .. => "BooleanLiteral"
  | binary .. => "BinaryExpr"
  | comparison .. => "ComparisonExpr"
  | unary .. => "UnaryExpr"
  | declaration .. => "SymbolDeclaration"
  | assignment .. => "SymbolAssignment"
  | pragma .. => "Pragma"
  | block .. => "Block"
  | program .. => "Program"
  | other name .. => name

/-- The children in source order. -/
def children : Node → List Node
  | symbol .. | numeral .. | truth .. => []
  | binary l _ r _ | comparison l _ r _ => [l, r]
  | unary _ x _ => [x]
  | declaration i x _ | assignment i x _ => [i, x]
  | pragma _ x _ => [x]
  | block xs _ => xs
  | program x _ => [x]
  | other _ xs _ => xs

theorem sizeOf_lt_of_mem_children {c n : Node} (h : c ∈ n.children) : sizeOf c < sizeOf n := by
  cases n with
  | symbol | numeral | truth => simp [children] at h
  | unary | pragma | program =>
    obtain rfl := List.mem_singleton.1 h
    simp
    omega
  | binary | comparison | declaration | assignment =>
    simp only [children, List.mem_cons, List.not_mem_nil, or_false] at h
    rcases h with rfl | rfl <;> simp <;> omega
  | block | other =>
    have := List.sizeOf_lt_of_mem h
    simp only [children] at this
    simp
    omega

theorem childInduction {P : Node → Prop} (step : ∀ n : Node, (∀ c ∈ n.children, P c) → P n) (n : Node) : P n :=
  step n fun c h =>
    have := sizeOf_lt_of_mem_children h
    childInduction step c
termination_by n

/-- The node and all nodes below it, each before its children. -/
def walk (n : Node) : List Node :=
  n :: n.children.attach.flatMap fun ⟨c, h⟩ =>
    have := sizeOf_lt_of_mem_children h
    walk c
termination_by n

theorem walk_eq (n : Node) : n.walk = n :: n.children.flatMap walk := by
  rw [walk]
  simp

/-- What every node hands down to its children holds of all nodes of a tree. -/
theorem forall_mem_walk {P : Node → Prop} (child : ∀ {n c : Node}, c ∈ n.children → P n → P c) {n : Node} (h : P n) :
    ∀ x ∈ n.walk, P x := by
  induction n using childInduction with
  | step n ih =>
    rw [walk_eq]
    refine List.forall_mem_cons.2 ⟨h, fun x hx => ?_⟩
    obtain ⟨c, hc, hx⟩ := List.mem_flatMap.1 hx
    exact ih c hc (child hc h) x hx

mutual
def same : Node → Node → Bool
  | symbol a _, symbol b _ => a == b
  | numeral a _, numeral b _ => a == b
  | truth a _, truth b _ => a == b
  | binary l op r _, binary l' op' r' _ => same l l' && op == op' && same r r'
  | comparison l op r _, comparison l' op' r' _ => same l l' && op == op' && same r r'
  | unary op x _, unary op' x' _ => op == op' && same x x'
  | declaration i x _, declaration i' x' _ => same i i' && same x x'
  | assignment i x _, assignment i' x' _ => same i i' && same x x'
  | pragma a x _, pragma b x' _ => a == b && same x x'
  | block xs _, block ys _ => sameAll xs ys
  | program x _, program x' _ => same x x'
  | other a xs _, other b ys _ => a == b && sameAll xs ys
  | _, _ => false
def sameAll : List Node → List Node → Bool
  | [], [] => true
  | x :: xs, y :: ys => same x y && sameAll xs ys
  | _, _ => false
end

/-- What does not tell one tree from another tells no lists of trees from each other. -/
theorem map_of_sameAll {α : Type} {f : Node → α} {xs ys : List Node}
    (hf : ∀ x ∈ xs, ∀ {y : Node}, x.same y = true → f x = f y) (h : sameAll xs ys = true) : xs.map f = ys.map f := by
  induction xs generalizing ys with
  | nil =>
    cases ys with
    | nil => rfl
    | cons y ys => simp [sameAll] at h
  | cons x xs ih =>
    cases ys with
    | nil => simp [sameAll] at h
    | cons y ys =>
      obtain ⟨hxy, hall⟩ : x.same y = true ∧ sameAll xs ys = true := by simpa [sameAll] using h
      obtain ⟨hx, hxs⟩ := List.forall_mem_cons.1 hf
      rw [List.map_cons, List.map_cons, hx hxy, ih hxs hall]

end Node

end FrontEnd
