import FrontEnd.Grammar.Entry

/-!
# Switches of the command line

Flags stand alone and fields take a value. Each is known by its spellings; the table's order is the order in which
candidates are listed to the user.
-/

namespace FrontEnd.Command

inductive Flag where
  | help
  | tokens
  | spans
  | allowTrailing
  | version
deriving DecidableEq, Repr

inductive Field where
  | file
  | entry
  | format
  | keyword
deriving DecidableEq, Repr

inductive Switch where
  | flag (f : Flag)
  | field (f : Field)
deriving DecidableEq, Repr

/-- How a parsed node is shown. -/
inductive Layout where
  | tree
  | source
  | summary
deriving DecidableEq, Repr

namespace Layout

def name : Layout → String
  | tree => "tree"
  | source => "source"
  | summary => "summary"

def all : List Layout := [tree, source, summary]

def names : List String := all.map name

def ofName? (s : String) : Option Layout :=
  all.find? (·.name = s)

end Layout

namespace Switch

def spellings : List (String × Switch) := [
  ("-h", flag .help),
  ("--help", flag .help),
  ("-f", field .file),
  ("--file", field .file),
  ("-e", field .entry),
  ("--entry", field .entry),
  ("--tokens", flag .tokens),
  ("--format", field .format),
  ("--spans", flag .spans),
  ("--keyword", field .keyword),
  ("--allow-trailing", flag .allowTrailing),
  ("--version", flag .version)]

def ofSpelling? (s : String) : Option Switch :=
  spellings.lookup s

/-- All spellings of a switch, as messages name it. -/
def title (s : Switch) : String :=
  String.intercalate "/" ((spellings.filter (·.2 = s)).map Prod.fst)

end Switch

end FrontEnd.Command
