import FrontEnd.Grammar.Statement

/-!
# Parsing sessions

The operations on a stream, one at a time: looking at tokens, taking them, and reading whole entries. Whatever the
answer, the stream stays where the operation left it.
-/

namespace FrontEnd

namespace Stream

inductive Step where
  | peek
  | consume
  | look (n : Int)
  | expect (kind : Kind)
  | dot
  /-- An entry by name, with the check that nothing is left over unless that is allowed. -/
  | parse (entry : String) (allowTrailing : Bool)
  /-- An entry without any check behind it. -/
  | production (entry : Entry)
deriving DecidableEq, Repr

inductive Answer where
  | token (t : Token)
  | node (n : Node)
  | fault (f : SyntaxFault)
  | misuse (m : Misuse)

def respond {α : Type} (answer : α → Answer) (p : Parse α) (s : Stream) : Answer × Stream :=
  match p s with
  | (.ok a, s') => (answer a, s')
  | (.error (.fault f), s') => (.fault f, s')
  | (.error (.misuse m), s') => (.misuse m, s')

def step (s : Stream) : Step → Answer × Stream
  | .peek => s.respond .token Parse.peek
  | .consume => s.respond .token Parse.consume
  | .look n => s.respond .token (Parse.look n)
  | .expect kind => s.respond .token (Parse.expect kind)
  | .dot => s.respond .token Parse.dot
  | .parse entry allowTrailing => s.respond .node (Parse.named entry allowTrailing)
  | .production entry => s.respond .node entry.parser

/-- The answers to a list of steps, in order, and the stream after them. -/
def run (s : Stream) : List Step → List Answer × Stream
  | [] => ([], s)
  | st :: sts =>
    let (a, s') := s.step st
    let (as, s'') := s'.run sts
    (a :: as, s'')

end Stream

end FrontEnd
