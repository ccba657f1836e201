import FrontEnd.Text.Decimal
import FrontEnd.Text.DecimalDigit

/-!
# Conversion between integers and texts

Reading accepts an integer written by hand: surrounding blanks, one sign, and decimal digits of any script with single
underscores between them. Writing gives its decimal text. The number of digits may be limited in both directions, so
that no conversion takes long; the sign does not count.
-/

namespace FrontEnd.Text

/-- White space around an integer: the ASCII blanks and the spaces and separators beyond ASCII. -/
def isPadding (c : Char) : Bool :=
  let n := c.toNat
  (0x9 ≤ n && n ≤ 0xd) || n == 0x20 || n == 0x85 || n == 0xa0 || n == 0x1680 || (0x2000 ≤ n && n ≤ 0x200a) ||
    n == 0x2028 || n == 0x2029 || n == 0x202f || n == 0x205f || n == 0x3000

def trimPadding (cs : List Char) : List Char :=
  ((cs.dropWhile isPadding).reverse.dropWhile isPadding).reverse

/-- Digits at the start of a text: how many, the number they denote, and what follows them. -/
structure DigitRun where
  count : Nat
  value : Nat
  rest : List Char
deriving DecidableEq, Repr

/-- The digits after the first ones; one underscore may stand before each, and no underscore stands elsewhere. -/
def moreDigits? (count value : Nat) : List Char → Option DigitRun
  | [] => some ⟨count, value, []⟩
  | ['_'] => none
  | '_' :: c :: cs => (digitValue? c).bind fun d => moreDigits? (count + 1) (10 * value + d) cs
  | c :: cs =>
    match digitValue? c with
    | some d => moreDigits? (count + 1) (10 * value + d) cs
    | none => some ⟨count, value, c :: cs⟩

def digitRun? : List Char → Option DigitRun
  | [] => none
  | c :: cs => (digitValue? c).bind fun d => moreDigits? 1 d cs

inductive IntegerFault where
  | malformed
  | tooManyDigits (limit count : Nat)
deriving DecidableEq, Repr

/-- The number of digits, leading zeros included, above which an integer is neither read nor written unless another
limit was set. -/
def digitLimit : Nat := 4300

/-- Reads digits alone. A run above the limit is refused before what follows it is looked at. -/
def readDigits (limit : Option Nat) (cs : List Char) : Except IntegerFault Nat :=
  match digitRun? cs with
  | none => .error .malformed
  | some run =>
    match limit.filter (· < run.count) with
    | some n => .error (.tooManyDigits n run.count)
    | none => if run.rest = [] then .ok run.value else .error .malformed

def readInteger (limit : Option Nat) (s : String) : Except IntegerFault Int :=
  match trimPadding s.toList with
  | '-' :: cs => (readDigits limit cs).map fun (n : Nat) => -(n : Int)
  | '+' :: cs => (readDigits limit cs).map Int.ofNat
  | cs => (readDigits limit cs).map Int.ofNat

/-- Writes an integer in decimal. The limit itself is the fault where the integer has more digits. -/
def writeInteger (limit : Option Nat) (v : Int) : Except Nat String :=
  match limit.filter (· < digitCount v) with
  | some n => .error n
  | none => .ok (decimal v)

end FrontEnd.Text
