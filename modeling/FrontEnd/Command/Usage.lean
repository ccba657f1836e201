import FrontEnd.Command.Switch
import FrontEnd.Release
import FrontEnd.Text.Quoted

/-!
# Usage

The usage and help texts, and what is said about a command line that makes no sense.
-/

namespace FrontEnd.Command

/-- The alternatives of a field, in braces. -/
def alternatives (names : List String) : String :=
  "\x7b" ++ String.intercalate "," names ++ "\x7d"

def usage : String :=
  "usage: clitac [-h] [-f FILE]\n" ++
  "              [-e " ++ alternatives Entry.names ++ "]\n" ++
  "              [--tokens] [--format " ++ alternatives Layout.names ++ "] [--spans]\n" ++
  "              [--keyword WORD] [--allow-trailing] [--version]\n" ++
  "              [source]\n"

def help : String :=
  usage ++
  "\nTokenize and parse Clita source\n" ++
  "\npositional arguments:\n" ++
  "  source                Clita source text\n" ++
  "\noptions:\n" ++
  "  -h, --help            show this help message and exit\n" ++
  "  -f FILE, --file FILE  Read source from FILE\n" ++
  "  -e " ++ alternatives Entry.names ++ ", --entry " ++ alternatives Entry.names ++ "\n" ++
  "                        Production to parse (default: program)\n" ++
  "  --tokens              Print tokens instead of parsing\n" ++
  "  --format " ++ alternatives Layout.names ++ "\n" ++
  "                        How to print the parsed node (default: tree)\n" ++
  "  --spans               Show source spans in the tree output\n" ++
  "  --keyword WORD        Reserve WORD as a keyword (repeatable)\n" ++
  "  --allow-trailing      Accept input left over after the production\n" ++
  "  --version             show program's version number and exit\n" ++
  "\nExamples:\n" ++
  "    clitac \"x := 5.\"                          # Parse a program, print the tree\n" ++
  "    clitac -e binary_expr \"20 + 5\"            # Start from another production\n" ++
  "    clitac --tokens \"5 <= 10\"                 # Dump the token stream\n" ++
  "    clitac -f program.clita --format source   # Reformat a file\n" ++
  "        \n"

def versionLine : String :=
  Release.toolName ++ " " ++ Release.version ++ "\n"

inductive UsageFault where
  /-- An abbreviation of several long switches. -/
  | ambiguous (argument : String) (candidates : List String)
  | expectedValue (field : Field)
  /-- A value attached to a flag. -/
  | ignoredValue (flag : Flag) (value : String)
  | invalidChoice (field : Field) (value : String) (choices : List String)
  /-- A source text and a file exclude each other; `title` names the one that came second. -/
  | exclusive (title other : String)
  | nothingToRead
  | unrecognized (arguments : List String)
deriving DecidableEq, Repr

/-- How messages name the source text. -/
def sourceTitle : String := "source"

namespace UsageFault

def message : UsageFault → String
  | ambiguous argument candidates =>
    "ambiguous option: " ++ argument ++ " could match " ++ String.intercalate ", " candidates
  | expectedValue field => "argument " ++ (Switch.field field).title ++ ": expected one argument"
  | ignoredValue flag value =>
    "argument " ++ (Switch.flag flag).title ++ ": ignored explicit argument " ++ Text.quoted value
  | invalidChoice field value choices =>
    "argument " ++ (Switch.field field).title ++ ": invalid choice: " ++ Text.quoted value ++ " (choose from " ++
      String.intercalate ", " (choices.map Text.quoted) ++ ")"
  | exclusive title other => "argument " ++ title ++ ": not allowed with argument " ++ other
  | nothingToRead =>
    "one of the arguments " ++ sourceTitle ++ " " ++ (Switch.field .file).title ++ " is required"
  | unrecognized arguments => "unrecognized arguments: " ++ String.intercalate " " arguments

def render (f : UsageFault) : String :=
  usage ++ Release.toolName ++ ": error: " ++ f.message ++ "\n"

end UsageFault

end FrontEnd.Command
