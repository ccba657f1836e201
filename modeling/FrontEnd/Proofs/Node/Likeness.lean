import FrontEnd.Node.Basic

/-!
# Trees that differ in their spans

`Node.Like R` relates two trees of one structure whose spans correspond, offset by offset, under `R`. Two trees that are
alike are the same up to spans (**`Node.Like.same`**), where `R` moves every offset by one distance, the second tree is
the first one moved (**`Node.Like.eq_shift`**), and where `R` is equality, so are the trees (`Node.Like.eq`).
-/

namespace FrontEnd

namespace Span

/-- The span moved by `d`. -/
def shift (d : Int) (sp : Span) : Span :=
  ⟨sp.start + d, sp.stop + d⟩

/-- Both spans are there, and their ends correspond. -/
def Like (R : Int → Int → Prop) : Option Span → Option Span → Prop
  | some a, some b => R a.start b.start ∧ R a.stop b.stop
  | _, _ => False

theorem Like.eq {a b : Option Span} (h : Like Eq a b) : a = b := by
  match a, b, h with
  | some ⟨i, j⟩, some ⟨i', j'⟩, h =>
    obtain ⟨rfl, rfl⟩ : i = i' ∧ j = j' := h
    rfl

theorem Like.eq_shift {d : Int} {a b : Option Span} (h : Like (fun i j => j = i + d) a b) : b = a.map (shift d) := by
  match a, b, h with
  | some ⟨i, j⟩, some ⟨i', j'⟩, h =>
    obtain ⟨rfl, rfl⟩ : i' = i + d ∧ j' = j + d := h
    rfl

end Span

namespace Node

variable {R : Int → Int → Prop}

mutual
/-- The tree with every span moved by `d`. -/
def shift (d : Int) : Node → Node
  | symbol name sp => symbol name (sp.map (.shift d))
  | numeral v sp => numeral v (sp.map (.shift d))
  | truth b sp => truth b (sp.map (.shift d))
  | binary l op r sp => binary (l.shift d) op (r.shift d) (sp.map (.shift d))
  | comparison l op r sp => comparison (l.shift d) op (r.shift d) (sp.map (.shift d))
  | unary op x sp => unary op (x.shift d) (sp.map (.shift d))
  | declaration i x sp => declaration (i.shift d) (x.shift d) (sp.map (.shift d))
  | assignment i x sp => assignment (i.shift d) (x.shift d) (sp.map (.shift d))
  | pragma name x sp => pragma name (x.shift d) (sp.map (.shift d))
  | block xs sp => block (shiftAll d xs) (sp.map (.shift d))
  | program x sp => program (x.shift d) (sp.map (.shift d))
  | other name xs sp => other name (shiftAll d xs) (sp.map (.shift d))
def shiftAll (d : Int) : List Node → List Node
  | [] => []
  | x :: xs => x.shift d :: shiftAll d xs
end

mutual
/-- One structure, with corresponding spans everywhere. -/
inductive Like (R : Int → Int → Prop) : Node → Node → Prop
  | symbol {name : String} {sp sp' : Option Span} : Span.Like R sp sp' → Like R (.symbol name sp) (.symbol name sp')
  | numeral {v : Int} {sp sp' : Option Span} : Span.Like R sp sp' → Like R (.numeral v sp) (.numeral v sp')
  | truth {b : Bool} {sp sp' : Option Span} : Span.Like R sp sp' → Like R (.truth b sp) (.truth b sp')
  | binary {l l' r r' : Node} {op : String} {sp sp' : Option Span} : Like R l l' → Like R r r' → Span.Like R sp sp' →
      Like R (.binary l op r sp) (.binary l' op r' sp')
  | comparison {l l' r r' : Node} {op : String} {sp sp' : Option Span} : Like R l l' → Like R r r' →
      Span.Like R sp sp' → Like R (.comparison l op r sp) (.comparison l' op r' sp')
  | unary {op : String} {x x' : Node} {sp sp' : Option Span} : Like R x x' → Span.Like R sp sp' →
      Like R (.unary op x sp) (.unary op x' sp')
  | declaration {i i' x x' : Node} {sp sp' : Option Span} : Like R i i' → Like R x x' → Span.Like R sp sp' →
      Like R (.declaration i x sp) (.declaration i' x' sp')
  | assignment {i i' x x' : Node} {sp sp' : Option Span} : Like R i i' → Like R x x' → Span.Like R sp sp' →
      Like R (.assignment i x sp) (.assignment i' x' sp')
  | pragma {name : String} {x x' : Node} {sp sp' : Option Span} : Like R x x' → Span.Like R sp sp' →
      Like R (.pragma name x sp) (.pragma name x' sp')
  | block {xs xs' : List Node} {sp sp' : Option Span} : LikeAll R xs xs' → Span.Like R sp sp' →
      Like R (.block xs sp) (.block xs' sp')
  | program {x x' : Node} {sp sp' : Option Span} : Like R x x' → Span.Like R sp sp' →
      Like R (.program x sp) (.program x' sp')
/-- Trees that are alike, one by one. -/
inductive LikeAll (R : Int → Int → Prop) : List Node → List Node → Prop
  | nil : LikeAll R [] []
  | cons {x x' : Node} {xs xs' : List Node} : Like R x x' → LikeAll R xs xs' → LikeAll R (x :: xs) (x' :: xs')
end

mutual
theorem Like.same {n m : Node} : Like R n m → n.same m = true
  | .symbol _ | .numeral _ | .truth _ => by simp [Node.same]
  | .binary hl hr _ | .comparison hl hr _ | .declaration hl hr _ | .assignment hl hr _ => by
    simp [Node.same, hl.same, hr.same]
  | .unary hx _ | .pragma hx _ | .program hx _ => by simp [Node.same, hx.same]
  | .block hxs _ => by simp [Node.same, hxs.sameAll]
theorem LikeAll.sameAll {xs ys : List Node} : LikeAll R xs ys → Node.sameAll xs ys = true
  | .nil => rfl
  | .cons hx hxs => by simp [Node.sameAll, hx.same, hxs.sameAll]
end

mutual
theorem Like.eq {n m : Node} : Like Eq n m → n = m
  | .symbol h | .numeral h | .truth h => by rw [h.eq]
  | .binary hl hr h | .comparison hl hr h | .declaration hl hr h | .assignment hl hr h => by rw [hl.eq, hr.eq, h.eq]
  | .unary hx h | .pragma hx h | .program hx h => by rw [hx.eq, h.eq]
  | .block hxs h => by rw [hxs.eq, h.eq]
theorem LikeAll.eq {xs ys : List Node} : LikeAll Eq xs ys → xs = ys
  | .nil => rfl
  | .cons hx hxs => by rw [hx.eq, hxs.eq]
end

mutual
theorem Like.eq_shift {d : Int} {n m : Node} : Like (fun i j => j = i + d) n m → m = n.shift d
  | .symbol h | .numeral h | .truth h => by rw [h.eq_shift, shift]
  | .binary hl hr h | .comparison hl hr h | .declaration hl hr h | .assignment hl hr h => by
    rw [hl.eq_shift, hr.eq_shift, h.eq_shift, shift]
  | .unary hx h | .pragma hx h | .program hx h => by rw [hx.eq_shift, h.eq_shift, shift]
  | .block hxs h => by rw [hxs.eq_shiftAll, h.eq_shift, shift]
theorem LikeAll.eq_shiftAll {d : Int} {xs ys : List Node} : LikeAll (fun i j => j = i + d) xs ys → ys = shiftAll d xs
  | .nil => rfl
  | .cons hx hxs => by rw [hx.eq_shift, hxs.eq_shiftAll, shiftAll]
end

end Node

end FrontEnd
