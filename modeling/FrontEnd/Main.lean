import FrontEnd.Command.Run

/-!
# The executable

Reads the one file that the command line may name, runs the tool on it and writes the report.
-/

open FrontEnd

/-- The bytes of a file, or why it could not be read. -/
def fetch (path : String) : IO (Except ReadFault ByteArray) := do
  if '\x00' ∈ path.toList then return .error .badName
  try
    return .ok (← IO.FS.readBinFile path)
  catch
    | .noFileOrDirectory .. => return .error .missing
    | .inappropriateType _ 20 _ => return .error .notDirectory
    | .inappropriateType _ 21 _ => return .error .isDirectory
    | .permissionDenied _ _ details => return .error (.refused details)
    | e => return .error (.refused (toString e))

def main (args : List String) : IO UInt32 := do
  let fetched ← match Command.readArguments args with
    | .ok { file := some path, .. } => fetch path
    | _ => pure (.error .missing)
  match Command.execute args fun _ => fetched with
  | .ok report =>
    (← IO.getStdout).putStr report.out
    (← IO.getStderr).putStr report.err
    return UInt32.ofNat report.status
  | .error (.misuse m) =>
    (← IO.getStderr).putStr (m.message ++ "\n")
    return 1
  | .error (.file .notText) =>
    (← IO.getStderr).putStr "the file is not UTF-8 text\n"
    return 1
  | .error (.file (.unreadable f)) =>
    (← IO.getStderr).putStr (f.message ++ "\n")
    return 1
