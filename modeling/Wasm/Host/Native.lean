import Wasm.Host.ByName
import Wasm.Host.Signature
import Wasm.Store

/-!
Modules of the host.  A native module is a named list of members, kept in the order of their names.
Providers are what the imports of a module are resolved against: native modules, and instances.
-/

namespace Wasm

/-- A module that the host provides. -/
structure NativeModule where
  name : String
  /-- The members, by ascending names. -/
  members : List (String × Member) := []

namespace NativeModule

/-- The names of the members, ascending. -/
def names (m : NativeModule) : List String :=
  m.members.map Prod.fst

/-- The member with a name. -/
def member? (m : NativeModule) (name : String) : Option Member :=
  m.members.lookup name

/-- The failure to find a member of a kind. -/
def notFound (m : NativeModule) (kind name : String) : Error :=
  exportNotFound kind (m.name ++ "." ++ name)

/-- The function with a name. -/
def func (m : NativeModule) (name : String) : Except Error FuncRef :=
  match m.member? name with
  | some (.func f) => .ok f
  | _ => .error (m.notFound "function" name)

/-- The address of the global with a name. -/
def globalAt (m : NativeModule) (name : String) : Except Error Address :=
  match m.member? name with
  | some (.global a) => .ok a
  | _ => .error (m.notFound "global" name)

/-- Adds a member under a new name. -/
def define (m : NativeModule) (name : String) (member : Member) : Except Error NativeModule :=
  if (m.member? name).isSome then
    .error (.runtime Code.duplicateMember s!"{m.name}.{name} is already defined")
  else .ok { m with members := insertByName (name, member) m.members }

/-- Adds a function under the name in its signature. -/
def register (m : NativeModule) (signature : String) (run : List Value → Proc) :
    Except Error NativeModule := do
  let (name, type) ← Signature.parse signature
  m.define name (.func (.host type run))

end NativeModule

/-- Where a module name leads. -/
inductive Provider where
  | native (m : NativeModule)
  | instance (a : Address)

/-- The providers that imports are resolved against, by ascending module names. -/
abbrev Externals := List (String × Provider)

/-- A module on whose behalf a function is called. -/
inductive Caller where
  | instance (a : Address)
  | native (m : NativeModule)

end Wasm
