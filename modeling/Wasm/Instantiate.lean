import Wasm.Machine

/-!
Instantiation.  A module is validated, its imports are resolved, and then its globals, its memory,
its functions and its table are set up in this order; the start function runs last.  Memories and
tables may be shared, so what a failing instantiation has written to them stays written; but every
segment is written whole or not at all.
-/

namespace Wasm

namespace Instantiate

/-- A part of an instantiation; a failure keeps what has been written so far. -/
abbrev Setup (α : Type) := EStateM Error Objects α

/-- The value of a computation that may fail. -/
def lift {α : Type} : Except Error α → Setup α
  | .ok a => pure a
  | .error e => throw e

/-- The value of a computation that may trap. -/
def orTrap {α : Type} : Except Trap α → Setup α
  | .ok a => pure a
  | .error t => throw t.error

/-- Puts a context in front of the message of a failure. -/
def within {α : Type} (outer : String) (part : Setup α) : Setup α :=
  tryCatch part fun e => throw (e.context outer)

/-! ### Imports -/

/-- Whether a member is what an import expects; of memories and tables the size at this time
counts. -/
def isCompatible (types : List FuncType) (o : Objects) : ImportDesc → Member → Bool
  | .func t, .func f => types[t.toNat]? = some f.type
  | .global t, .global a => (o.globals[a]?).any fun c => c.type = t
  | .memory required, .memory a =>
    (o.memories[a]?).any fun m => Limits.fits ⟨m.size, m.limits.max⟩ required
  | .table required, .table a =>
    (o.tables[a]?).any fun t => Limits.fits ⟨t.size, t.type.limits.max⟩ required.limits
  | _, _ => false

/-- The text of what an import expects. -/
def expectedText (types : List FuncType) : ImportDesc → String
  | .func t =>
    match types[t.toNat]? with
    | some type => s!"func {type.text}"
    | none => s!"func type[{t.toNat}]"
  | .table t => s!"table {t.text}"
  | .memory l => s!"memory {l.text}"
  | .global t => s!"global {t.text}"

/-- The member that an import stands for. -/
def resolve (s : Store) (externals : Externals) (types : List FuncType) (imp : Import) :
    Except Error Member :=
  match externals.lookup imp.module with
  | none =>
    .error (.link Code.unknownImportModule s!"unknown import module {Text.quoted imp.module}")
  | some provider =>
    match s.provided? provider imp.name with
    | none => .error (.link Code.unknownImport s!"unknown import {imp.module}.{imp.name}")
    | some member =>
      if isCompatible types s.objects imp.desc member then .ok member
      else
        let found := ((s.objects.typeOf member).map ExternType.text).getD ""
        .error (.link Code.incompatibleImport
          (s!"incompatible import type for {imp.module}.{imp.name}: " ++
            s!"expected {expectedText types imp.desc}, found {found}"))

/-- Binds an import to a member. -/
def bind (b : Bindings) : Member → Bindings
  | .func f => { b with funcs := b.funcs.push (.imported f) }
  | .global a => { b with globals := b.globals.push a }
  | .memory a => { b with memory := some a }
  | .table a => { b with table := some a }

/-- Resolves the imports in their order. -/
def imports (s : Store) (externals : Externals) (b : Bindings) : List Import → Except Error Bindings
  | [] => .ok b
  | imp :: rest =>
    match resolve s externals b.module.types imp with
    | .error e => .error e
    | .ok member => imports s externals (bind b member) rest

/-! ### Constant expressions -/

/-- The value of a constant expression, given the globals that exist already. -/
def constant (o : Objects) (globals : Array Address) : Expr → Except Error Value
  | [.plain (.const t) (.value v)] =>
    if v.type = t then .ok v else .error notConstant
  | [.plain .globalGet (.index i)] =>
    match (globals[i.toNat]?).bind fun a => o.globals[a]? with
    | some c => .ok c.value
    | none => .error (Trap.uninitializedGlobal i).error
  | _ => .error notConstant
where
  /-- An expression that is not constant. -/
  notConstant : Error := .validation Code.constantRequired "constant expression required"

/-- The offset of a segment. -/
def offset (o : Objects) (globals : Array Address) (e : Expr) : Except Error UInt32 :=
  match constant o globals e with
  | .ok (.i32 n) => .ok n
  | .ok v =>
    .error (.validation Code.typeMismatch s!"segment offset must be i32, found {v.type.name}")
  | .error e => .error e

/-! ### Index spaces -/

/-- Creates the globals of the module, each from what is there before it. -/
def globals (b : Bindings) (index : Nat) : List Global → Setup Bindings
  | [] => pure b
  | g :: rest => do
    let o ← get
    let v ← within s!"global[{index}]" (lift (constant o b.globals g.init))
    set { o with globals := o.globals.push ⟨g.type.isMutable, v⟩ }
    globals { b with globals := b.globals.push o.globals.size } (index + 1) rest

/-- Creates the memory of the module, if it defines one. -/
def memory (b : Bindings) : Setup Bindings :=
  match b.module.memories with
  | [] => pure b
  | limits :: _ => do
    let m ← lift (Memory.allocate limits b.config.maxMemoryPages)
    modifyGet fun o =>
      ({ b with memory := some o.memories.size }, { o with memories := o.memories.push m })

/-- Writes a data segment. -/
def dataSegment (b : Bindings) (index : Nat) (d : Data) : Setup Unit := do
  let position ← within s!"data[{index}]" do lift (offset (← get) b.globals d.offset)
  let a ← orTrap b.memoryAt
  let m ← orTrap ((← get).memory a)
  if m.inBounds position.toNat d.bytes.length then
    modify fun o => o.putBytes a position.toNat d.bytes
  else within s!"data[{index}]" (orTrap (.error (m.outOfBounds position.toNat d.bytes.length)))

/-- Adds the functions of the module. -/
def functions (b : Bindings) : Bindings :=
  let defined := (b.module.functions.zip b.module.codes).map fun (t, code) =>
    Func.defined ((b.module.types[t.toNat]?).getD {}) code.localCount code.body
  { b with funcs := b.funcs ++ defined.toArray }

/-- Creates the table of the module, if it defines one. -/
def table (b : Bindings) : Setup Bindings :=
  match b.module.tables with
  | [] => pure b
  | type :: _ =>
    modifyGet fun o =>
      ({ b with table := some o.tables.size }, { o with tables := o.tables.push (.allocate type) })

/-- References to functions of the instance. -/
def references (b : Bindings) (index : Nat) : List UInt32 → Except Error (List FuncRef)
  | [] => .ok []
  | i :: rest =>
    match b.funcRef? i with
    | none => .error ((Trap.undefinedFunction i).error.context s!"element[{index}]")
    | some f =>
      match references b index rest with
      | .ok fs => .ok (f :: fs)
      | .error e => .error e

/-- Writes an element segment. -/
def elementSegment (b : Bindings) (index : Nat) (e : Element) : Setup Unit := do
  let position ← within s!"element[{index}]" do lift (offset (← get) b.globals e.offset)
  let a ← orTrap b.tableAt
  let t ← orTrap ((← get).table a)
  if position.toNat + e.funcs.length ≤ t.size.toNat then
    let funcs ← lift (references b index e.funcs)
    modify fun o => o.putSlots a position.toNat funcs
  else orTrap (.error (.elementOutOfBounds index e.funcs.length position t.size))

/-- Runs a part on each item of a list, numbered from `index` on. -/
def each {α : Type} (part : Nat → α → Setup Unit) (index : Nat) : List α → Setup Unit
  | [] => pure ()
  | a :: rest => do
    part index a
    each part (index + 1) rest

/-- Everything between the imports and the start function. -/
def setup (b : Bindings) : Setup Bindings := do
  let b ← globals b 0 b.module.globals
  let b ← memory b
  each (dataSegment b) 0 b.module.data
  let b := functions b
  let b ← table b
  each (elementSegment b) 0 b.module.elements
  return b

end Instantiate

namespace Store

/-- Runs the start function of an instance, if its module has one. -/
def start (fuel : Nat) (s : Store) (a : Address) (index : Option UInt32) :
    Option (Except Error Unit × Store) :=
  match index with
  | none => some (.ok (), s)
  | some index =>
    (Machine.invokeIndex s a true index [] []).run fuel |>.map fun
      | (.ok _, s) => (.ok (), s)
      | (.error e, s) => (.error (e.context "start function"), s)

/-- Instantiates a module and gives the address of the instance.  A failed instantiation leaves no
instance behind, but its address is not used again. -/
def instantiate (fuel : Nat) (s : Store) (externals : Externals) (m : Module) (config : Config) :
    Option (Except Error Address × Store) :=
  match Validation.module m with
  | .error e => some (.error e, s)
  | .ok () =>
    let a := s.instances.size
    match Instantiate.imports s externals { self := a, module := m, config } m.imports with
    | .error e => some (.error e, s)
    | .ok b =>
      match s with
      | ⟨objects, instances, handles, events⟩ =>
        match Instantiate.setup b objects with
        | .error e objects => some (.error e, ⟨objects, instances.push none, handles, events⟩)
        | .ok b objects =>
          let s : Store :=
            ⟨objects, instances.push (some ⟨b, .idle config, false⟩), handles, events⟩
          (s.start fuel a m.start).map fun
            | (.ok (), s) => (.ok a, s)
            | (.error e, s) => (.error e, s.setInstance a none)

end Store

end Wasm
