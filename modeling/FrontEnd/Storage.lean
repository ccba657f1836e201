import FrontEnd.Reading
import FrontEnd.Text.Newline

/-!
# Source texts in files

A storage answers a path with the bytes of a file or with the reason why there are none. A text file is strict UTF-8,
and all its line ends become LF before anything else looks at it.
-/

namespace FrontEnd

inductive ReadFault where
  | missing
  | isDirectory
  | notDirectory
  /-- The path holds a NUL and so cannot name anything. -/
  | badName
  /-- Any other reason, in the words of the system. -/
  | refused (reason : String)
deriving DecidableEq, Repr

def ReadFault.message : ReadFault → String
  | missing => "No such file or directory"
  | isDirectory => "Is a directory"
  | notDirectory => "Not a directory"
  | badName => "embedded null byte"
  | refused reason => reason

inductive FileFault where
  | unreadable (f : ReadFault)
  | notText
deriving DecidableEq, Repr

def Storage : Type :=
  String → Except ReadFault ByteArray

namespace Storage

def readText (storage : Storage) (path : String) : Except FileFault String :=
  match storage path with
  | .error f => .error (.unreadable f)
  | .ok bytes =>
    match String.fromUTF8? bytes with
    | none => .error .notText
    | some text => .ok (String.ofList (Text.unifyNewlines text.toList))

/-! ## A working directory -/

/-- The parts of a path between its slashes. -/
def components : List Char → List (List Char)
  | [] => [[]]
  | c :: cs =>
    if c = '/' then [] :: components cs
    else
      match components cs with
      | [] => [[c]]
      | part :: parts => (c :: part) :: parts

/-- Where a path has led so far. -/
inductive Place where
  | working
  /-- Some other directory, in which nothing is known. -/
  | elsewhere
  | file (bytes : ByteArray)

def Place.follow (files : List (String × ByteArray)) : Place → List Char → Except ReadFault Place
  | file _, _ => .error .notDirectory
  | here, [] | here, ['.'] => .ok here
  | _, ['.', '.'] => .ok elsewhere
  | elsewhere, _ => .error .missing
  | working, name =>
    match files.lookup (String.ofList name) with
    | some bytes => .ok (file bytes)
    | none => .error .missing

def Place.bytes : Place → Except ReadFault ByteArray
  | working | elsewhere => .error .isDirectory
  | file bytes => .ok bytes

/-- The storage in a working directory that holds the given regular files and nothing else. -/
def ofFiles (files : List (String × ByteArray)) : Storage := fun path =>
  let cs := path.toList
  if '\x00' ∈ cs then .error .badName
  else
    match cs with
    | [] => .error .missing
    | '/' :: cs => (components cs).foldlM (Place.follow files) .elsewhere >>= Place.bytes
    | cs => (components cs).foldlM (Place.follow files) .working >>= Place.bytes

/-! ## Reading from a storage -/

inductive Failure where
  | file (f : FileFault)
  | text (f : FrontEnd.Failure)
deriving DecidableEq, Repr

def tokenize (storage : Storage) (lx : Lexicon) (path : String) : Except Failure (List Token) :=
  match storage.readText path with
  | .error f => .error (.file f)
  | .ok text => (lx.tokenize path text).mapError fun f => .text (.ofLexical f)

def parse (storage : Storage) (lx : Lexicon) (entry : String) (path : String) : Except Failure Node :=
  match storage.readText path with
  | .error f => .error (.file f)
  | .ok text => (lx.parse path entry false text).mapError .text

end Storage

end FrontEnd
