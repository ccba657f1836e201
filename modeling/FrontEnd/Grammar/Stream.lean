import FrontEnd.Fault
import FrontEnd.Node.Basic
import FrontEnd.Text.Integer

/-!
# Token streams

A stream is a buffer of tokens with a place in it. Its last token is always an end of input, which is looked at but
never taken; ends of input before the last one are taken like any other token.
-/

namespace FrontEnd

structure Stream where
  /-- What can still be taken. -/
  ahead : List Token
  /-- The last token of the buffer. -/
  final : Token
  /-- How many tokens were taken. -/
  index : Nat
  /-- Where the token taken last ends. -/
  reach : Int
  /-- How many digits the text of a numeral without a value may have, if there is a limit. -/
  maxDigits : Option Nat := some Text.digitLimit
deriving DecidableEq, Repr

namespace Stream

/-- A fresh stream over `tokens`. An end of input is put behind them unless they end in one. -/
def ofTokens (tokens : List Token) : Stream :=
  match tokens.getLast? with
  | none => { ahead := [], final := .lone, index := 0, reach := 0 }
  | some t =>
    if t.isEnd then { ahead := tokens.dropLast, final := t, index := 0, reach := 0 }
    else { ahead := tokens, final := t.endAfter, index := 0, reach := 0 }

/-- The tokens from the current one to the last. -/
def pending (s : Stream) : List Token :=
  s.ahead ++ [s.final]

/-- The token `n` places on, or the last one where there are not so many. -/
def look (s : Stream) (n : Nat) : Token :=
  s.ahead.getD n s.final

def peek (s : Stream) : Token :=
  s.look 0

/-- Steps over `t`, with `rest` behind it. -/
def taking (s : Stream) (t : Token) (rest : List Token) : Stream :=
  { s with ahead := rest, index := s.index + 1, reach := t.stop }

/-- The span of the tokens taken between two states of a stream; where none were, the empty span at the current one. -/
def spanTo (s s' : Stream) : Span :=
  ⟨s.peek.start, if s'.index ≤ s.index then s.peek.start else s'.reach⟩

end Stream

end FrontEnd
