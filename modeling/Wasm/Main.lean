import Wasm.Command

/-!
The program: it reads the file that a command names, carries the command out, and prints the report.
-/

open Wasm

/-- Reads a file. -/
def readContent (path : String) : IO (Except FileFault (List UInt8)) := do
  try
    return .ok (← IO.FS.readBinFile path).toList
  catch e =>
    return .error <| match e with
      | .noFileOrDirectory .. => .notFound
      | .inappropriateType .. => .isDirectory
      | e => .other (toString e)

/-- The file that words name, if they ask for a command. -/
def fileOf? (depth : Option String) (words : List String) : Option String :=
  match Command.parse depth words with
  | .ok (.check file) | .ok (.dump file) | .ok (.run file ..) => some file
  | .error _ => none

def main (words : List String) : IO UInt32 := do
  let depth ← IO.getEnv "WVM_MAX_CALL_DEPTH"
  let content ← match fileOf? depth words with
    | some file => readContent file
    | none => pure (.error .notFound)
  let report := Command.executeWords (fun _ => content) depth words
  IO.print report.output
  (← IO.getStdout).flush
  IO.eprint report.complaint
  return UInt32.ofNat report.code
