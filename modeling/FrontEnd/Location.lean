import FrontEnd.Text.Decimal
import FrontEnd.Text.Quoted

/-!
# Places in a source text

A `Mark` is a place in the text being read: how many characters lie before it, and its line and column, both counted
from one. It is moved over one character at a time by `Mark.step`, and `Mark.after` recomputes it from the text before
it. A `Location` is what tokens and diagnostics carry: a named text and any three integers.
-/

namespace FrontEnd

structure Location where
  file : String
  line : Int
  column : Int
  offset : Int
deriving DecidableEq, Repr

/-- The form used in diagnostics. -/
def Location.render (l : Location) : String :=
  l.file ++ ":" ++ Text.decimal l.line ++ ":" ++ Text.decimal l.column

/-- The form that shows every field. -/
def Location.describe (l : Location) : String :=
  "SourceLocation(" ++ Text.quoted l.file ++ ", " ++ Text.decimal l.line ++ ", " ++ Text.decimal l.column ++ ", " ++
    Text.decimal l.offset ++ ")"

structure Mark where
  offset : Nat
  line : Nat
  column : Nat
deriving DecidableEq, Repr

namespace Mark

def start : Mark := ⟨0, 1, 1⟩

/-- The place after `c`. Only LF starts a new line. -/
def step (m : Mark) (c : Char) : Mark :=
  if c = '\n' then ⟨m.offset + 1, m.line + 1, 1⟩ else ⟨m.offset + 1, m.line, m.column + 1⟩

def past (m : Mark) (cs : List Char) : Mark :=
  cs.foldl step m

/-- The place just after the text `before`, by counting its line ends and what follows the last of them. -/
def after (before : List Char) : Mark where
  offset := before.length
  line := before.count '\n' + 1
  column := (before.reverse.takeWhile (· ≠ '\n')).length + 1

def locate (m : Mark) (file : String) : Location :=
  ⟨file, m.line, m.column, m.offset⟩

@[simp]
theorem past_nil (m : Mark) : m.past [] = m := rfl

@[simp]
theorem past_cons (m : Mark) (c : Char) (cs : List Char) : m.past (c :: cs) = (m.step c).past cs := rfl

theorem past_append (m : Mark) (cs ds : List Char) : m.past (cs ++ ds) = (m.past cs).past ds :=
  List.foldl_append

end Mark

end FrontEnd
