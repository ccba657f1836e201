import FrontEnd.Fault
import FrontEnd.Token.Cursor

/-!
# From text to tokens

Blanks are skipped; words and numerals are longest runs; every other token is a sign of the punctuation table, where
`>` and `<` take a directly following `=`. The first refusal ends a reading of a whole text.

* `Lexicon.value?` compares a run of digits with the limit. It writes the limit out and reads the run, and either
  conversion is refused where an integer has more than `Lexicon.maxDigits` digits.
* `Lexicon.next` reads one token and says where it left the cursor, also when it fails: past the digits of a numeral
  that is too large or cannot be compared, and on a character that no token starts with.
* `Lexicon.drain` reads tokens through the end of input.
* **`Lexicon.length_next_lt`**: reading a token other than the end of input moves the cursor forward.
-/

namespace FrontEnd

/-- The largest numeral that fits in 32 bits with a sign. -/
def maxNumeral : Int := 2147483647

/-- What can be chosen about the lexical rules: the words that are keywords, and the largest numeral. -/
structure Lexicon where
  reserved : List String := []
  limit : Int := maxNumeral
  /-- How many digits an integer may have that is converted from or to a text; `none` if any number of them. -/
  maxDigits : Option Nat := some Text.digitLimit
deriving DecidableEq, Repr

namespace Lexicon

def wordKind (lx : Lexicon) (word : String) : Kind :=
  if lx.reserved.contains word then .keyword else .symbol

/-- A run of digits without its leading zeros; one digit always stays. -/
def significant (digits : List Char) : List Char :=
  match digits.dropWhile (· == '0') with
  | [] => ['0']
  | ds => ds

/-- The value of a run of digits, if it is within the limit. A run that is longer than the limit written out is not
read. The minus sign of the limit counts as one place, so a run may be read that has a digit more than the limit. -/
def value? (lx : Lexicon) (digits : List Char) : Except Misuse (Option Int) :=
  match shownInteger lx.maxDigits lx.limit with
  | .error m => .error m
  | .ok bound =>
    let ds := significant digits
    if bound.length < ds.length then .ok none
    else
      match Text.readDigits lx.maxDigits ds with
      | .error f => .error (.ofIntegerFault (String.ofList ds) f)
      | .ok v => .ok (if v ≤ lx.limit then some (v : Int) else none)

/-- A word at the cursor. -/
def word (lx : Lexicon) (file : String) (c : Cursor) : Token × Cursor :=
  let n := c.run isWordPart
  (c.token file n (lx.wordKind (String.ofList (c.rest.take n))) none, c.pass n)

/-- A numeral at the cursor. -/
def numeral (lx : Lexicon) (file : String) (c : Cursor) : Except LexicalRefusal Token × Cursor :=
  let n := c.run isDigit
  let digits := c.rest.take n
  match lx.value? digits with
  | .ok (some v) => (.ok (c.token file n .numeric (some v)), c.pass n)
  | .ok none => (.error (.fault (.numericOverflow (String.ofList digits) lx.limit (c.mark.locate file))), c.pass n)
  | .error m => (.error (.misuse m), c.pass n)

/-- The kind and length of a sign of kind `k` that has `after` behind its first character. -/
def sign (k : Kind) (after : List Char) : Kind × Nat :=
  match k.withEquals?, after with
  | some k', '=' :: _ => (k', 2)
  | _, _ => (k, 1)

/-- The token at a cursor that has no blanks before it. -/
def here (lx : Lexicon) (file : String) (c : Cursor) : Except LexicalRefusal Token × Cursor :=
  match c.rest with
  | [] => (.ok (c.token file 0 .endOfFile none), c)
  | x :: xs =>
    if isWordStart x then
      let (t, c') := lx.word file c
      (.ok t, c')
    else if isDigit x then
      lx.numeral file c
    else
      match punctuation? x with
      | some k =>
        let (k', n) := sign k xs
        (.ok (c.token file n k' none), c.pass n)
      | none => (.error (.fault (.unknownCharacter (String.singleton x) (c.mark.locate file))), c)

/-- Reads the next token. -/
def next (lx : Lexicon) (file : String) (c : Cursor) : Except LexicalRefusal Token × Cursor :=
  lx.here file c.skipBlanks

theorem sign_pos (k : Kind) (after : List Char) : 0 < (sign k after).2 := by
  unfold sign
  split <;> simp

theorem length_here_lt {lx : Lexicon} {file : String} {c c' : Cursor} {t : Token}
    (h : lx.here file c = (.ok t, c')) (ht : t.isEnd = false) : c'.rest.length < c.rest.length := by
  unfold here at h
  split at h
  case h_1 =>
    obtain ⟨rfl, rfl⟩ := by simpa using h
    simp [Token.isEnd, Cursor.token] at ht
  case h_2 x xs hc =>
    have hpos : 0 < c.rest.length := by simp [hc]
    split at h
    case isTrue hx =>
      obtain ⟨rfl, rfl⟩ := by simpa [word] using h
      have := Cursor.run_pos hc (show isWordPart x = true by simp [isWordPart, hx])
      rw [Cursor.length_rest_pass]
      omega
    case isFalse hx =>
      split at h
      case isTrue hd =>
        have hrun := Cursor.run_pos hc hd
        simp only [numeral] at h
        split at h
        case h_1 =>
          obtain ⟨rfl, rfl⟩ := by simpa using h
          rw [Cursor.length_rest_pass]
          omega
        case h_2 | h_3 => simp at h
      case isFalse =>
        split at h
        case h_1 k _ =>
          obtain ⟨rfl, rfl⟩ := by simpa using h
          have := sign_pos k xs
          rw [Cursor.length_rest_pass]
          omega
        case h_2 => simp at h

theorem length_next_lt {lx : Lexicon} {file : String} {c c' : Cursor} {t : Token}
    (h : lx.next file c = (.ok t, c')) (ht : t.isEnd = false) : c'.rest.length < c.rest.length :=
  Nat.lt_of_lt_of_le (length_here_lt h ht) c.length_skipBlanks_le

/-- Reads tokens through the end of input, or up to the first refusal. -/
def drain (lx : Lexicon) (file : String) (c : Cursor) : Except LexicalRefusal (List Token) × Cursor :=
  match h : lx.next file c with
  | (.error e, c') => (.error e, c')
  | (.ok t, c') =>
    if ht : t.isEnd then (.ok [t], c')
    else
      have := length_next_lt h (by simpa using ht)
      match lx.drain file c' with
      | (.ok ts, c'') => (.ok (t :: ts), c'')
      | (.error e, c'') => (.error e, c'')
termination_by c.rest.length

theorem drain_of_error {lx : Lexicon} {file : String} {c c' : Cursor} {e : LexicalRefusal}
    (h : lx.next file c = (.error e, c')) : lx.drain file c = (.error e, c') := by
  rw [drain]
  split <;> simp_all

theorem drain_of_end {lx : Lexicon} {file : String} {c c' : Cursor} {t : Token}
    (h : lx.next file c = (.ok t, c')) (ht : t.isEnd = true) : lx.drain file c = (.ok [t], c') := by
  rw [drain]
  split <;> simp_all

theorem drain_of_ok {lx : Lexicon} {file : String} {c c' : Cursor} {t : Token}
    (h : lx.next file c = (.ok t, c')) (ht : t.isEnd = false) :
    lx.drain file c = ((lx.drain file c').1.map (t :: ·), (lx.drain file c').2) := by
  rw [drain]
  split
  · simp_all
  · simp_all
    split <;> simp_all [Except.map]

/-- All tokens of a text, the end of input last. -/
def tokenize (lx : Lexicon) (file : String) (text : String) : Except LexicalRefusal (List Token) :=
  (lx.drain file (.ofText text.toList)).1

end Lexicon

end FrontEnd
