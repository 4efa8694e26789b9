import Wasm.Host.Native

/-!
Summaries of modules: the one-line texts that show an instance by its exports, and a native module
by its members.
-/

namespace Wasm

/-- The word for a kind in a summary. -/
def ExternKind.summary : ExternKind → String
  | func => "Func"
  | table => "Table"
  | memory => "Memory"
  | global => "Global"

/-- The summary of an instance with the given exports. -/
def exportsSummary (exports : List (String × ExternKind)) : String :=
  "RuntimeModule \x7b exports: [" ++
    ", ".intercalate (exports.map fun e => "(" ++ Text.quoted e.1 ++ ", " ++ e.2.summary ++ ")") ++
    "] \x7d"

/-- The text of a member with its kind in front. -/
def ExternType.summary (t : ExternType) : String :=
  t.kind.name ++ " " ++ t.text

/-- The summary of a native module. -/
def NativeModule.summary (m : NativeModule) (o : Objects) : String :=
  let member (entry : String × Member) : String :=
    Text.quoted entry.1 ++ ": " ++ ((o.typeOf entry.2).map ExternType.text).getD ""
  "NativeModule \x7b name: " ++ Text.quoted m.name ++ ", members: \x7b" ++
    ", ".intercalate (m.members.map member) ++ "\x7d \x7d"

end Wasm
