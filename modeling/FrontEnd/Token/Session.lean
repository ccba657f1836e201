import FrontEnd.Token.Scan

/-!
# Reading sessions

A session reads one text step by step: single tokens, whole texts, jumps to an offset, and any number of iterators that
share the session's cursor. An iterator is finished once it gave the end of input or met a refusal, and stays finished
when the cursor is moved back.
-/

namespace FrontEnd

structure Session where
  text : List Char
  file : String
  lexicon : Lexicon
  cursor : Cursor
  /-- Whether each iterator made so far is finished, the oldest first. -/
  finished : List Bool
deriving DecidableEq, Repr

namespace Session

inductive Step where
  | next
  | reset (position : Int)
  /-- All tokens from the start of the text. -/
  | tokenize
  /-- All tokens from the cursor on. -/
  | drain
  | iterate
  /-- One token for the iterator of the given number. -/
  | advance (iterator : Nat)
deriving DecidableEq, Repr

inductive Answer where
  | done
  | token (t : Token)
  | tokens (ts : List Token)
  | stopped
  | fault (f : LexicalFault)
  | misuse (m : Misuse)
deriving DecidableEq, Repr

def Answer.ofRefusal : LexicalRefusal → Answer
  | .fault f => fault f
  | .misuse m => misuse m

@[simp]
theorem Answer.ofRefusal_inj {e e' : LexicalRefusal} : ofRefusal e = ofRefusal e' ↔ e = e' := by
  cases e <;> cases e' <;> simp [ofRefusal]

@[simp]
theorem Answer.ofRefusal_ne_token {e : LexicalRefusal} {t : Token} : ofRefusal e ≠ token t := by
  cases e <;> exact nofun

theorem Answer.ofRefusal_ne_tokens {e : LexicalRefusal} {ts : List Token} : ofRefusal e ≠ tokens ts := by
  cases e <;> exact nofun

@[simp]
theorem Answer.ofRefusal_ne_stopped {e : LexicalRefusal} : ofRefusal e ≠ stopped := by
  cases e <;> exact nofun

def start (text : List Char) (file : String) (lexicon : Lexicon) : Session :=
  ⟨text, file, lexicon, .ofText text, []⟩

def next (s : Session) : Answer × Session :=
  match s.lexicon.next s.file s.cursor with
  | (.ok t, c) => (.token t, { s with cursor := c })
  | (.error e, c) => (.ofRefusal e, { s with cursor := c })

/-- Moves the cursor to `position`, if the text has such a place. -/
def reset (s : Session) (position : Int) : Answer × Session :=
  if 0 ≤ position ∧ position ≤ s.text.length then (.done, { s with cursor := .seek s.text position.toNat })
  else (.misuse (.positionOutside position s.text.length), s)

def drain (s : Session) : Answer × Session :=
  match s.lexicon.drain s.file s.cursor with
  | (.ok ts, c) => (.tokens ts, { s with cursor := c })
  | (.error e, c) => (.ofRefusal e, { s with cursor := c })

def advance (s : Session) (i : Nat) : Answer × Session :=
  if s.finished.getD i true then (.stopped, s)
  else
    match s.lexicon.next s.file s.cursor with
    | (.ok t, c) => (.token t, { s with cursor := c, finished := s.finished.set i t.isEnd })
    | (.error e, c) => (.ofRefusal e, { s with cursor := c, finished := s.finished.set i true })

def step (s : Session) : Step → Answer × Session
  | .next => s.next
  | .reset p => s.reset p
  | .tokenize => (s.reset 0).2.drain
  | .drain => s.drain
  | .iterate => (.done, { s with finished := s.finished ++ [false] })
  | .advance i => s.advance i

/-- The answers to a list of steps, in order, and the session after them. -/
def run (s : Session) : List Step → List Answer × Session
  | [] => ([], s)
  | st :: sts =>
    let (a, s') := s.step st
    let (as, s'') := s'.run sts
    (a :: as, s'')

end Session

/-- One token of `text` from `position` on, and the position after it. -/
def nextToken (text : String) (position : Int) (file : String) : Session.Answer × Nat :=
  let s := Session.start text.toList file {}
  match s.reset position with
  | (.done, s) =>
    let (a, s) := s.next
    (a, s.cursor.mark.offset)
  | (a, s) => (a, s.cursor.mark.offset)

end FrontEnd
