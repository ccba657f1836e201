import FrontEnd.Command.Arguments
import FrontEnd.Node.Outline
import FrontEnd.Node.Source
import FrontEnd.Storage

/-!
# Running the tool

A run ends in a report: an exit status and what is written to the two output channels. It has no report when no source
text was named, when the file's name cannot name a file, when the file is not text, or when a value that was left out is
needed.
-/

namespace FrontEnd.Command

structure Report where
  status : Nat
  out : String
  err : String
deriving DecidableEq, Repr

/-- What ends a run without a report. -/
inductive Breakdown where
  | misuse (m : Misuse)
  | file (f : FileFault)
deriving DecidableEq, Repr

def complaint (text : String) : Report := ⟨1, "", text⟩

/-- The source text to be read, if there is one, and the name it is reported by; or the report on a file that cannot be
read. An empty file name counts as none. -/
def Settings.obtain (st : Settings) (storage : Storage) :
    Except Breakdown (Except Report (Option String × String)) :=
  match st.file with
  | none | some "" => .ok (.ok (st.source, "<string>"))
  | some path =>
    match storage.readText path with
    | .ok text => .ok (.ok (some text, path))
    | .error .notText => .error (.file .notText)
    | .error (.unreadable .badName) => .error (.file (.unreadable .badName))
    | .error (.unreadable f) =>
      .ok (.error (complaint (Release.toolName ++ ": cannot read " ++ path ++ ": " ++ f.message ++ "\n")))

/-- The lexical rules asked for, if no keyword was left out. -/
def Settings.lexicon? (st : Settings) : Option Lexicon :=
  (st.keywords.mapM id).map fun words => { reserved := words }

/-- What is shown of a tree that was read from a text. The spans of such a tree are places in the text, so no outline
breaks off at one of them. -/
def Settings.show (st : Settings) (n : Node) : Except Misuse String :=
  match st.layout with
  | .source => n.source
  | .summary => n.summary
  | .tree => n.outline { spans := st.spans, maxDigits := none }

/-- The report on a source text. -/
def Settings.report (st : Settings) (lx : Lexicon) (text file : String) : Except Breakdown Report :=
  match lx.tokenize file text with
  | .error (.fault f) => .ok (complaint f.diagnostic.render)
  | .error (.misuse m) => .error (.misuse m)
  | .ok tokens =>
    if st.tokens then .ok ⟨0, String.join (tokens.map fun t => t.render ++ "\n"), ""⟩
    else
      match st.entry with
      | none => .error (.misuse .noValue)
      | some entry =>
        match (entry.parse st.allowTrailing (.ofTokens tokens)).1 with
        | .error (.fault f) => .ok (complaint f.diagnostic.render)
        | .error (.misuse m) => .error (.misuse m)
        | .ok n =>
          match st.show n with
          | .ok shown => .ok ⟨0, shown ++ "\n", ""⟩
          | .error m => .error (.misuse m)

def Settings.run (st : Settings) (storage : Storage) : Except Breakdown Report :=
  match st.obtain storage with
  | .error b => .error b
  | .ok (.error r) => .ok r
  | .ok (.ok (text?, file)) =>
    match st.lexicon?, text? with
    | none, _ => .error (.misuse .noValue)
    | some _, none => .error (.misuse .noText)
    | some lx, some text => st.report lx text file

/-- The whole tool: from the arguments after its name to its report. -/
def execute (args : List String) (storage : Storage) : Except Breakdown Report :=
  match readArguments args with
  | .error .help => .ok ⟨0, help, ""⟩
  | .error .version => .ok ⟨0, versionLine, ""⟩
  | .error (.fault f) => .ok ⟨2, "", f.render⟩
  | .ok st => st.run storage

end FrontEnd.Command
