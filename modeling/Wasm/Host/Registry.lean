import Wasm.Host.Native

/-!
The registry from which an embedder builds its externals.  Functions, globals and other members go
into native modules, which come into being with their first member; whole modules are registered
under a name of their own, and take no further members.
-/

namespace Wasm

/-- The modules registered so far. -/
structure Registry where
  natives : List (String × NativeModule) := []
  modules : List (String × Provider) := []

namespace Registry

/-- A module name that is taken. -/
def alreadyRegistered (name : String) : Error :=
  .runtime Code.duplicateMember s!"module {Text.quoted name} is already registered"

/-- Changes the native module with a name, which is new if there was none. -/
def change (r : Registry) (name : String)
    (f : NativeModule → Except Error NativeModule) : Except Error Registry :=
  if (r.modules.lookup name).isSome then .error (alreadyRegistered name)
  else
    match f ((r.natives.lookup name).getD { name }) with
    | .error e => .error e
    | .ok m => .ok { r with natives := (name, m) :: r.natives.filter (·.1 ≠ name) }

/-- Registers a whole module. -/
def add (r : Registry) (name : String) (p : Provider) : Except Error Registry :=
  if (r.natives.lookup name).isSome || (r.modules.lookup name).isSome then
    .error (alreadyRegistered name)
  else .ok { r with modules := (name, p) :: r.modules }

/-- All modules, by ascending names. -/
def externals (r : Registry) : Externals :=
  (r.modules ++ r.natives.map fun n => (n.1, Provider.native n.2)).foldr insertByName []

end Registry

/-- Adds a provider, in place of one with the same name. -/
def Externals.replace (x : Externals) (name : String) (p : Provider) : Externals :=
  insertByName (name, p) (x.filter (·.1 ≠ name))

end Wasm
