import Wasm.Host.Proc

/-!
References.  Instances share memories, tables and global cells by their addresses in the store.  A
function is referred to either by what it does, if the host provides it, or by the instance that
owns it and its index there.
-/

namespace Wasm

/-- A reference to a function. -/
inductive FuncRef where
  /-- A function of the host. -/
  | host (type : FuncType) (run : List Value → Proc)
  /-- A function of an instance. -/
  | owned (type : FuncType) (owner : Address) (index : UInt32)

/-- The signature of a function. -/
def FuncRef.type : FuncRef → FuncType
  | host type _ => type
  | owned type .. => type

/-- Something that a module provides under a name. -/
inductive Member where
  | func (f : FuncRef)
  | table (address : Address)
  | memory (address : Address)
  | global (address : Address)

/-- The kind of a member. -/
def Member.kind : Member → ExternKind
  | func _ => .func
  | table _ => .table
  | memory _ => .memory
  | global _ => .global

/-- The member, if it is a function. -/
def Member.func? : Member → Option FuncRef
  | func f => some f
  | _ => none

/-- The address of the member, if it is a global. -/
def Member.global? : Member → Option Address
  | global a => some a
  | _ => none

/-- The address of the member, if it is a memory. -/
def Member.memory? : Member → Option Address
  | memory a => some a
  | _ => none

/-- The address of the member, if it is a table. -/
def Member.table? : Member → Option Address
  | table a => some a
  | _ => none

/-- A module provides nothing of the expected kind under a name. -/
def exportNotFound (kind name : String) : Error :=
  .runtime Code.exportNotFound s!"{kind} export {Text.quoted name} not found"

end Wasm
