import FrontEnd.Token.Basic

/-!
# Cursors

A cursor stands in a text: what is still to be read, and the mark of the place. Reading goes through `Cursor.pass`
alone, so whatever `pass` keeps, all reading keeps.
-/

namespace FrontEnd

structure Cursor where
  mark : Mark
  rest : List Char
deriving DecidableEq, Repr

namespace Cursor

def ofText (text : List Char) : Cursor :=
  ⟨.start, text⟩

/-- The cursor at an offset of `text`, its mark recomputed from the text before it. -/
def seek (text : List Char) (offset : Nat) : Cursor :=
  ⟨.after (text.take offset), text.drop offset⟩

/-- Moves over the next `n` characters. -/
def pass (c : Cursor) (n : Nat) : Cursor :=
  ⟨c.mark.past (c.rest.take n), c.rest.drop n⟩

/-- How many of the next characters satisfy `p`, up to the first one that does not. -/
def run (c : Cursor) (p : Char → Bool) : Nat :=
  (c.rest.takeWhile p).length

def skipBlanks (c : Cursor) : Cursor :=
  c.pass (c.run isBlank)

/-- The token made of the next `n` characters. -/
def token (c : Cursor) (file : String) (n : Nat) (kind : Kind) (value : Option Int) : Token where
  kind := kind
  text := String.ofList (c.rest.take n)
  start := c.mark.offset
  stop := (c.pass n).mark.offset
  location := c.mark.locate file
  value := value

@[simp]
theorem rest_pass (c : Cursor) (n : Nat) : (c.pass n).rest = c.rest.drop n := rfl

theorem length_rest_pass (c : Cursor) (n : Nat) : (c.pass n).rest.length = c.rest.length - n := by simp

theorem run_pos {c : Cursor} {p : Char → Bool} {x : Char} {xs : List Char} (h : c.rest = x :: xs) (hx : p x = true) :
    0 < c.run p := by
  simp [run, h, hx]

theorem length_skipBlanks_le (c : Cursor) : c.skipBlanks.rest.length ≤ c.rest.length := by
  simp [skipBlanks]

end Cursor

end FrontEnd
