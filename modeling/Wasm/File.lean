import Wasm.Binary.Module

/-!
Modules in files.  What goes wrong with a file, or with the module in it, is reported with the path
of the file in front.
-/

namespace Wasm

/-- Why a file cannot be read. -/
inductive FileFault where
  | notFound
  | notDirectory
  | isDirectory
  | other (text : String)
deriving Repr, DecidableEq

namespace FileFault

/-- The wording of a fault. -/
def message : FileFault → String
  | notFound => "No such file or directory (os error 2)"
  | notDirectory => "Not a directory (os error 20)"
  | isDirectory => "Is a directory (os error 21)"
  | other text => text

/-- A fault as a failure. -/
def error (f : FileFault) : Error :=
  ⟨.io, Code.file, f.message⟩

end FileFault

/-- The module in a file. -/
def Module.ofFile (path : String) (content : Except FileFault (List UInt8)) : Except Error Module :=
  withContext (fun _ => path) <|
    match content with
    | .ok bytes => Binary.decode bytes
    | .error f => .error f.error

end Wasm
