import Wasm.Host.Native

/-!
Answers to the requests of host functions.  The caller of a host function answers for itself even
while it is running; through a handle, an instance that is running answers nothing.
-/

namespace Wasm

/-- A call from outside of an instance that is running already. -/
def alreadyExecuting : Error :=
  .runtime Code.instanceUnavailable "instance is already executing"

/-- A call of a function whose instance is gone. -/
def ownerDropped : Error :=
  .runtime Code.instanceUnavailable "owning instance was dropped"

/-- A call of a function whose instance is running already. -/
def ownerExecuting (index : UInt32) : Error :=
  .runtime Code.instanceUnavailable
    s!"cannot call func[{index.toNat}]: owning instance is already executing"

namespace Store

/-- Whether a call from outside is running in an instance. -/
def isBusy (s : Store) (a : Address) : Bool :=
  match s.instance? a with
  | some i => i.busy
  | none => false

/-- The bindings of an instance that is not running. -/
def idle? (s : Store) (a : Address) : Option Bindings :=
  (s.instance? a).bind fun i => if i.busy then none else some i.bindings

/-- The address of a global that an instance exports; a running instance gives none away. -/
def heldGlobal (s : Store) (a : Address) (name : String) : Except Error Address :=
  match s.idle? a with
  | some b => b.exportedGlobal name
  | none => .error alreadyExecuting

/-- The address of the global that a caller or an instance behind a handle has under a name. -/
def globalOf (s : Store) (caller : Caller) (target : Target) (name : String) :
    Except Error Address :=
  match target, caller with
  | .caller, .native m => m.globalAt name
  | .caller, .instance a =>
    match s.instance? a with
    | some i => i.bindings.exportedGlobal name
    | none => .error ownerDropped
  | .handle h, _ =>
    match s.handle? h with
    | some a => s.heldGlobal a name
    | none => .error ownerDropped

/-- The member that a caller or an instance behind a handle has under a name. -/
def memberOf (s : Store) (caller : Caller) (target : Target) (name : String) : Option Member :=
  match target, caller with
  | .caller, .native m => m.member? name
  | .caller, .instance a => (s.instance? a).bind (·.bindings.member? name)
  | .handle h, _ => ((s.handle? h).bind s.idle?).bind (·.member? name)

/-- What a provider has under a name. -/
def provided? (s : Store) (p : Provider) (name : String) : Option Member :=
  match p with
  | .native m => m.member? name
  | .instance a => (s.idle? a).bind (·.member? name)

/-- The value of a global. -/
def readGlobal (s : Store) (a : Address) : Except Error Value :=
  match s.objects.global a with
  | .ok c => .ok c.value
  | .error t => .error t.error

/-- Sets a global; a failure leaves the store as it is. -/
def assignGlobal (s : Store) (a : Address) (v : Value) : Except Error Unit × Store :=
  match s.objects.setGlobal a v with
  | .ok objects => (.ok (), { s with objects := objects })
  | .error t => (.error t.error, s)

/-- Writes into a memory; a failure leaves the store as it is. -/
def assignMemory (s : Store) (a : Address) (offset : Nat) (data : List UInt8) :
    Except Error Unit × Store :=
  match s.objects.writeMemory a offset data with
  | .ok objects => (.ok (), { s with objects := objects })
  | .error t => (.error t.error, s)

/-- Grows a memory and gives its old size. -/
def growMemory (s : Store) (a : Address) (delta : UInt32) : Except Error UInt32 × Store :=
  match s.objects.memory a with
  | .error t => (.error t.error, s)
  | .ok m =>
    match m.grow delta with
    | .error e => (.error e, s)
    | .ok (old, m) => (.ok old, { s with objects := s.objects.putMemory a m })

/-- The bytes of a part of a memory. -/
def readMemory (s : Store) (a : Address) (offset length : Nat) : Except Error (List UInt8) :=
  match (s.objects.memory a).bind fun m => m.read offset length with
  | .ok data => .ok data
  | .error t => .error t.error

/-- Grows a table and gives its old size. -/
def growTable (s : Store) (a : Address) (delta : UInt32) : Except Error UInt32 × Store :=
  match s.objects.table a with
  | .error t => (.error t.error, s)
  | .ok t =>
    match t.grow delta with
    | .error e => (.error e, s)
    | .ok (old, t) => (.ok old, { s with objects := s.objects.putTable a t })

/-- What a slot of a table holds. -/
def slot (s : Store) (a : Address) (index : UInt32) : Except Error (Option FuncRef) :=
  match (s.objects.table a).bind fun t => t.get index with
  | .ok f => .ok f
  | .error t => .error t.error

/-- Replaces what a slot of a table holds. -/
def setSlot (s : Store) (a : Address) (index : UInt32) (f : Option FuncRef) :
    Except Error Unit × Store :=
  match (s.objects.table a).bind fun t => t.set index f with
  | .ok t => (.ok (), { s with objects := s.objects.putTable a t })
  | .error t => (.error t.error, s)

/-- The names and kinds of the exports of an instance; none while it is running. -/
def exports (s : Store) (a : Address) : List (String × ExternKind) :=
  match s.idle? a with
  | some b => b.module.exports.map fun e => (e.name, e.kind)
  | none => []

/-- The address of the memory of an instance; none while it is running. -/
def memory? (s : Store) (a : Address) : Option Address :=
  (s.idle? a).bind (·.memory)

/-- The address of an object that a host function refers to on behalf of a caller; `pick` is for the
members of the expected kind. -/
def objectAt (s : Store) (caller : Caller) (pick : Member → Option Address) :
    ObjectRef → Option Address
  | .held a => some a
  | .member target name => (s.memberOf caller target name).bind pick

/-- The function that a host function refers to on behalf of a caller. -/
def funcAt (s : Store) (caller : Caller) : FuncSource → Option FuncRef
  | .member target name => (s.memberOf caller target name).bind Member.func?
  | .slot table index => (s.objectAt caller Member.table? table).bind fun a =>
    (s.slot a index).toOption.join

/-- Works on an object, if there is one. -/
def onObject {α : Type} (s : Store) (place : Option Address) (act : Address → α × Store) :
    Option α × Store :=
  match place with
  | some a => ((act a).1, (act a).2)
  | none => (none, s)

/-- Answers a request on behalf of a caller. -/
def answer (s : Store) (caller : Caller) : (request : Request) → request.Answer × Store
  | .emit event => ((), s.emit event)
  | .getGlobal target name => ((s.globalOf caller target name).bind s.readGlobal, s)
  | .setGlobal target name v =>
    match s.globalOf caller target name with
    | .ok a => s.assignGlobal a v
    | .error e => (.error e, s)
  | .member target name => ((s.memberOf caller target name).bind s.objects.typeOf, s)
  | .writeMemory name offset data =>
    match s.memberOf caller .caller name with
    | some (.memory a) => s.assignMemory a offset data
    | _ => (.ok (), s)
  | .exports h => (((s.handle? h).map s.exports).getD [], s)
  | .hasMemory h => (((s.handle? h).bind s.memory?).isSome, s)
  | .readCell global => ((s.objectAt caller Member.global? global).map s.readGlobal, s)
  | .setCell global v =>
    s.onObject (s.objectAt caller Member.global? global) fun a => s.assignGlobal a v
  | .readBytes memory offset length =>
    ((s.objectAt caller Member.memory? memory).map fun a => s.readMemory a offset length, s)
  | .putBytes memory offset data =>
    s.onObject (s.objectAt caller Member.memory? memory) fun a => s.assignMemory a offset data
  | .growMemory memory delta =>
    s.onObject (s.objectAt caller Member.memory? memory) fun a => s.growMemory a delta
  | .growTable table delta =>
    s.onObject (s.objectAt caller Member.table? table) fun a => s.growTable a delta
  | .slotType table index =>
    ((s.objectAt caller Member.table? table).map fun a =>
      (s.slot a index).map (·.map FuncRef.type), s)
  | .setSlot table index none =>
    s.onObject (s.objectAt caller Member.table? table) fun a => s.setSlot a index none
  | .setSlot table index (some source) =>
    match s.funcAt caller source with
    | some f =>
      s.onObject (s.objectAt caller Member.table? table) fun a => s.setSlot a index (some f)
    | none => (none, s)

end Store

end Wasm
