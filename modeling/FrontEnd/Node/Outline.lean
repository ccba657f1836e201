import FrontEnd.Fault
import FrontEnd.Node.Basic

/-!
# Outlines

An outline shows a tree with one line for each node, indented by its depth: the type, what the node itself holds, and
its span if spans are wanted. It is written by a `Printer`, which goes from node to node with the lines it has written
and the depth it has come to, and which may be used for one tree after another.

Printing breaks off at an integer with too many digits to be shown. The printer is then left where it was.
-/

namespace FrontEnd

def Span.render (s : Span) (maxDigits : Option Nat := some Text.digitLimit) : Except Misuse String := do
  return (← shownInteger maxDigits s.start) ++ ".." ++ (← shownInteger maxDigits s.stop)

namespace Outline

structure Style where
  indent : String := "  "
  spans : Bool := false
  /-- How many digits an integer may have that is shown; `none` if any number of them. -/
  maxDigits : Option Nat := some Text.digitLimit
deriving DecidableEq, Repr

/-- The span that is shown of a node. -/
def Style.span? (style : Style) (n : Node) : Option Span :=
  if style.spans then n.span else none

structure Printer where
  style : Style := {}
  /-- The lines written so far, the latest first. -/
  lines : List String := []
  /-- How deep the next node stands. -/
  depth : Nat := 0
deriving DecidableEq, Repr

/-- What a printer does. It is left in some state also when it fails. -/
abbrev Printing : Type → Type :=
  ExceptT Misuse (StateM Printer)

namespace Printer

def showInteger (v : Int) : Printing String := do
  ofExcept (shownInteger (← get).style.maxDigits v)

/-- Writes the line of a node, which shows `detail` unless that is empty. -/
def emit (n : Node) (detail : String) : Printing Unit := do
  let p ← get
  let line := String.join (List.replicate p.depth p.style.indent) ++ n.typeName
  let line := if detail = "" then line else line ++ " " ++ detail
  match p.style.span? n with
  | some s =>
    let range ← ofExcept (s.render p.style.maxDigits)
    set { p with lines := (line ++ " @" ++ range) :: p.lines }
  | none => set { p with lines := line :: p.lines }

/-- Goes down to the children of the node that was written last. -/
def enter : Printing Unit :=
  modify fun p => { p with depth := p.depth + 1 }

def leave : Printing Unit :=
  modify fun p => { p with depth := p.depth - 1 }

mutual
/-- Writes a tree. A node of a type without a form of its own shows its type and its children. -/
def visit (n : Node) : Printing Unit :=
  match n with
  | .symbol name _ => emit n name
  | .numeral value _ => do emit n (← showInteger value)
  | .truth value _ => emit n (if value then "true" else "false")
  | .binary l op r _ => do emit n (Text.quoted op); enter; visit l; visit r; leave
  | .comparison l op r _ => do emit n (Text.quoted op); enter; visit l; visit r; leave
  | .unary op x _ => do emit n (Text.quoted op); enter; visit x; leave
  | .pragma name x _ => do emit n name; enter; visit x; leave
  | .declaration i x _ => do emit n ""; enter; visit i; visit x; leave
  | .assignment i x _ => do emit n ""; enter; visit i; visit x; leave
  | .block xs _ => do emit n ""; enter; visitAll xs; leave
  | .program x _ => do emit n ""; enter; visit x; leave
  | .other _ xs _ => do emit n ""; enter; visitAll xs; leave
def visitAll (xs : List Node) : Printing Unit :=
  match xs with
  | [] => pure ()
  | x :: xs => do visit x; visitAll xs
end

/-- The outline of a tree, and the printer after it. -/
def render (p : Printer) (n : Node) : Except Misuse String × Printer :=
  match (visit n).run { p with lines := [], depth := 0 } with
  | (.ok (), p) => (.ok (String.intercalate "\n" p.lines.reverse), p)
  | (.error m, p) => (.error m, p)

/-- The outlines of some trees, written one after another. -/
def renderAll (p : Printer) : List Node → List (Except Misuse String) × Printer
  | [] => ([], p)
  | n :: ns =>
    let (text, p) := p.render n
    let (texts, p) := p.renderAll ns
    (text :: texts, p)

end Printer

end Outline

def Node.outline (style : Outline.Style) (n : Node) : Except Misuse String :=
  (Outline.Printer.render { style } n).1

end FrontEnd
