import Wasm.Proofs.Instantiation.Constants

/-!
# What a module is linked to

What instantiation has to find, without saying how it looks for it: the members that the imports
name, the cells, the memory and the table that the indices of the module stand for, and the room
that its segments have.  Everything here is read off the store and the providers as they are before
the instantiation begins.
-/

namespace Wasm

/-- A segment of a module: bytes for its memory, or functions for its table. -/
inductive Segment where
  | data (d : Data)
  | element (e : Element)

namespace Segment

/-- The constant expression of the offset. -/
def offset : Segment → Expr
  | data d => d.offset
  | element e => e.offset

/-- The number of bytes, or of functions. -/
def length : Segment → Nat
  | data d => d.bytes.length
  | element e => e.funcs.length

/-- The code of the failure of a segment that does not fit. -/
def code : Segment → Nat
  | data _ => Code.memoryOutOfBounds
  | element _ => Code.tableOutOfBounds

end Segment

/-- The segments of a module in the order in which they are written. -/
def Module.segments (m : Module) : List Segment :=
  m.data.map .data ++ m.elements.map .element

namespace Instantiation

/-- The codes of the failures to resolve an import. -/
def linkCodes : List Nat :=
  [Code.unknownImportModule, Code.unknownImport, Code.incompatibleImport]

/-- A member of the kind that an import expects, and of an equal type, or within its limits. -/
inductive Matches (types : List FuncType) (o : Objects) : ImportDesc → Member → Prop where
  | func {t : UInt32} {f : FuncRef} (h : types[t.toNat]? = some f.type) :
      Matches types o (.func t) (.func f)
  | global {type : GlobalType} {a : Address} {c : Cell} (hc : o.globals[a]? = some c)
      (h : c.type = type) : Matches types o (.global type) (.global a)
  | memory {required : Limits} {a : Address} {mem : Memory} (hmem : o.memories[a]? = some mem)
      (h : Limits.Fits ⟨mem.size, mem.limits.max⟩ required) :
      Matches types o (.memory required) (.memory a)
  | table {required : TableType} {a : Address} {t : Table} (ht : o.tables[a]? = some t)
      (h : Limits.Fits ⟨t.size, t.type.limits.max⟩ required.limits) :
      Matches types o (.table required) (.table a)

theorem isCompatible_iff {types : List FuncType} {o : Objects} {desc : ImportDesc} {x : Member} :
    Instantiate.isCompatible types o desc x = true ↔ Matches types o desc x := by
  constructor
  · intro h
    cases desc with
    | func t =>
      cases x with
      | func f => exact .func (of_decide_eq_true h)
      | _ => cases h
    | global type =>
      cases x with
      | global a =>
        obtain ⟨c, hc, htype⟩ := (Option.any_eq_true _ _).mp h
        exact .global hc (of_decide_eq_true htype)
      | _ => cases h
    | memory required =>
      cases x with
      | memory a =>
        obtain ⟨mem, hmem, hfits⟩ := (Option.any_eq_true _ _).mp h
        exact .memory hmem ((Limits.fits_eq_true_iff _ _).mp hfits)
      | _ => cases h
    | table required =>
      cases x with
      | table a =>
        obtain ⟨t, ht, hfits⟩ := (Option.any_eq_true _ _).mp h
        exact .table ht ((Limits.fits_eq_true_iff _ _).mp hfits)
      | _ => cases h
  · intro h
    cases h with
    | func h => exact decide_eq_true h
    | global hc h =>
      exact (Option.any_eq_true _ _).mpr ⟨_, hc, decide_eq_true h⟩
    | memory hmem h =>
      exact (Option.any_eq_true _ _).mpr ⟨_, hmem, (Limits.fits_eq_true_iff _ _).mpr h⟩
    | table ht h =>
      exact (Option.any_eq_true _ _).mpr ⟨_, ht, (Limits.fits_eq_true_iff _ _).mpr h⟩

theorem Matches.memory?_spec {types : List FuncType} {o : Objects} {desc : ImportDesc} {x : Member}
    (h : Matches types o desc x) : (desc.kind = .memory → ∃ a, x.memory? = some a) ∧
      ∀ {a}, x.memory? = some a → ∃ mem, o.memories[a]? = some mem := by
  cases h with
  | memory hmem _ =>
    refine ⟨fun _ => ⟨_, rfl⟩, fun ha => ?_⟩
    cases ha
    exact ⟨_, hmem⟩
  | _ => constructor <;> intros <;> contradiction

theorem Matches.table?_spec {types : List FuncType} {o : Objects} {desc : ImportDesc} {x : Member}
    (h : Matches types o desc x) : (desc.kind = .table → ∃ a, x.table? = some a) ∧
      ∀ {a}, x.table? = some a → ∃ t, o.tables[a]? = some t := by
  cases h with
  | table ht _ =>
    refine ⟨fun _ => ⟨_, rfl⟩, fun ha => ?_⟩
    cases ha
    exact ⟨_, ht⟩
  | _ => constructor <;> intros <;> contradiction

/-- What an instantiation starts from. -/
structure Linkage where
  store : Store
  externals : Externals
  module : Module
  config : Config

namespace Linkage

variable (l : Linkage)

/-! ### Members -/

/-- The member that an import names. -/
def member? (imp : Import) : Option Member :=
  (l.externals.lookup imp.module).bind fun p => l.store.provided? p imp.name

/-- The members that the imports name, in their order. -/
def members : List Member :=
  l.module.imports.filterMap l.member?

/-- Every import names a member that matches it. -/
def Resolved : Prop :=
  ∀ imp ∈ l.module.imports, ∃ x, l.member? imp = some x ∧
    Matches l.module.types l.store.objects imp.desc x

/-- The memory that the module defines is not larger than the configuration allows. -/
def Affordable : Prop :=
  ∀ limits ∈ l.module.memories, limits.min ≤ l.config.maxMemoryPages

/-! ### Index spaces -/

/-- The cells of the imported globals. -/
def importedCells : List Cell :=
  (l.members.filterMap Member.global?).filterMap fun a => l.store.objects.globals[a]?

/-- The cells of all globals, with their initial values. -/
def globals? : Option (List Cell) :=
  initialCells l.importedCells l.module.globals

/-- A memory that the module defines: it holds zeros. -/
def newMemory (limits : Limits) : Memory :=
  ⟨limits, l.config.maxMemoryPages, ⟨Array.replicate (limits.min.toNat * Memory.pageSize) 0⟩⟩

/-- The address of the memory: the next one, if the module defines it, or the imported one. -/
def memoryAt? : Option Address :=
  match l.module.memories with
  | _ :: _ => some l.store.objects.memories.size
  | [] => (l.members.filterMap Member.memory?).getLast?

/-- The memories, together with the one that the module defines. -/
def memories : Array Memory :=
  match l.module.memories with
  | limits :: _ => l.store.objects.memories.push (l.newMemory limits)
  | [] => l.store.objects.memories

/-- The memory, with its address, before anything is written to it. -/
def memory? : Option (Address × Memory) :=
  l.memoryAt?.bind fun a => (l.memories[a]?).map fun mem => (a, mem)

/-- The address of the table: the next one, if the module defines it, or the imported one. -/
def tableAt? : Option Address :=
  match l.module.tables with
  | _ :: _ => some l.store.objects.tables.size
  | [] => (l.members.filterMap Member.table?).getLast?

/-- The tables, together with the one that the module defines; its slots are empty. -/
def tables : Array Table :=
  match l.module.tables with
  | type :: _ => l.store.objects.tables.push (.allocate type)
  | [] => l.store.objects.tables

/-- The table, with its address, before anything is written to it. -/
def table? : Option (Address × Table) :=
  l.tableAt?.bind fun a => (l.tables[a]?).map fun t => (a, t)

/-- The reference behind a function index: the imported one, or one to a function of the instance
that is to come. -/
def funcRef? (x : UInt32) : Option FuncRef :=
  match (l.members.filterMap Member.func?)[x.toNat]? with
  | some f => some f
  | none => (l.module.funcType? x).map fun type => .owned type l.store.instances.size x

/-! ### Segments -/

/-- The value of the offset of a segment. -/
def offset? (seg : Segment) : Option UInt32 :=
  (l.globals?.bind fun cells => valueOf? cells seg.offset).bind fun
    | .i32 n => some n
    | _ => none

/-- The size of what a segment is written to. -/
def room? : Segment → Option Nat
  | .data _ => l.memory?.map fun p => p.2.bytes.size
  | .element _ => l.table?.map fun p => p.2.size.toNat

/-- A segment lies within the memory or the table, as a whole. -/
def Fits (seg : Segment) : Prop :=
  ∃ n room, l.offset? seg = some n ∧ l.room? seg = some room ∧ n.toNat + seg.length ≤ room

/-- The bindings of the imports. -/
def bound : Bindings :=
  l.members.foldl Instantiate.bind ⟨l.store.instances.size, l.module, l.config, #[], #[], none, none⟩

/-! ### Resolving the imports -/

variable {l}

theorem resolve_eq_ok_iff {imp : Import} {x : Member} :
    Instantiate.resolve l.store l.externals l.module.types imp = .ok x ↔
      l.member? imp = some x ∧ Matches l.module.types l.store.objects imp.desc x := by
  unfold Instantiate.resolve member?
  cases l.externals.lookup imp.module with
  | none => exact ⟨nofun, fun h => nomatch h.1⟩
  | some p =>
    dsimp only [Option.bind_some]
    cases l.store.provided? p imp.name with
    | none => exact ⟨nofun, fun h => nomatch h.1⟩
    | some y =>
      dsimp only
      split
      · next hcompatible =>
        rw [isCompatible_iff] at hcompatible
        constructor
        · intro h
          cases h
          exact ⟨rfl, hcompatible⟩
        · rintro ⟨h, -⟩
          cases h
          rfl
      · next hcompatible =>
        rw [isCompatible_iff] at hcompatible
        refine ⟨nofun, fun ⟨h, hmatches⟩ => ?_⟩
        cases h
        exact absurd hmatches hcompatible

theorem code_of_resolve {imp : Import} {e : Error}
    (h : Instantiate.resolve l.store l.externals l.module.types imp = .error e) :
    e.code ∈ linkCodes := by
  unfold Instantiate.resolve at h
  split at h
  · cases h
    exact List.mem_cons_self ..
  · split at h
    · cases h
      exact .tail _ (.head _)
    · split at h
      · cases h
      · cases h
        exact .tail _ (.tail _ (.head _))

/-- The imports that name matching members are bound one after another. -/
theorem imports_eq_ok {imports : List Import} {b : Bindings} (hmodule : b.module = l.module)
    (h : ∀ imp ∈ imports, ∃ x, l.member? imp = some x ∧
      Matches l.module.types l.store.objects imp.desc x) :
    Instantiate.imports l.store l.externals b imports =
      .ok ((imports.filterMap l.member?).foldl Instantiate.bind b) := by
  induction imports generalizing b with
  | nil => rfl
  | cons imp rest ih =>
    obtain ⟨x, hx, hmatches⟩ := h imp (List.mem_cons_self ..)
    have hbind : (Instantiate.bind b x).module = l.module := by
      rw [← hmodule]
      cases x <;> rfl
    rw [Instantiate.imports, hmodule, resolve_eq_ok_iff.mpr ⟨hx, hmatches⟩]
    dsimp only
    rw [ih hbind fun imp himp => h imp (List.mem_cons_of_mem _ himp), List.filterMap_cons, hx]
    rfl

/-- Some import that names no matching member is the first one. -/
theorem imports_eq_error {imports : List Import} {b : Bindings} (hmodule : b.module = l.module)
    (h : ¬ ∀ imp ∈ imports, ∃ x, l.member? imp = some x ∧
      Matches l.module.types l.store.objects imp.desc x) :
    ∃ e, Instantiate.imports l.store l.externals b imports = .error e ∧ e.code ∈ linkCodes := by
  induction imports generalizing b with
  | nil => exact absurd (fun _ h => nomatch h) h
  | cons imp rest ih =>
    rw [Instantiate.imports, hmodule]
    cases hresolve : Instantiate.resolve l.store l.externals l.module.types imp with
    | error e => exact ⟨e, rfl, code_of_resolve hresolve⟩
    | ok x =>
      have hbind : (Instantiate.bind b x).module = l.module := by
        rw [← hmodule]
        cases x <;> rfl
      refine ih hbind fun hrest => h fun imp' himp' => ?_
      cases himp' with
      | head => exact ⟨x, resolve_eq_ok_iff.mp hresolve⟩
      | tail _ himp' => exact hrest imp' himp'

/-! ### What the imports are bound to -/

theorem or_getLast?_cons {α : Type} (a : α) (l : List α) (x : Option α) :
    (a :: l).getLast?.or x = l.getLast?.or (some a) := by
  rw [List.getLast?_cons]
  cases l.getLast? <;> rfl

theorem foldl_bind (members : List Member) (b : Bindings) :
    members.foldl Instantiate.bind b =
      { b with
        funcs := b.funcs ++ ((members.filterMap Member.func?).map Func.imported).toArray
        globals := b.globals ++ (members.filterMap Member.global?).toArray
        memory := (members.filterMap Member.memory?).getLast?.or b.memory
        table := (members.filterMap Member.table?).getLast?.or b.table } := by
  induction members generalizing b with
  | nil => simp
  | cons x rest ih =>
    rw [List.foldl_cons, ih]
    cases x <;> simp [Instantiate.bind, List.filterMap_cons, Member.func?, Member.global?,
      Member.memory?, Member.table?, or_getLast?_cons]

theorem bound_eq : l.bound =
    ⟨l.store.instances.size, l.module, l.config,
      ((l.members.filterMap Member.func?).map Func.imported).toArray,
      (l.members.filterMap Member.global?).toArray,
      (l.members.filterMap Member.memory?).getLast?,
      (l.members.filterMap Member.table?).getLast?⟩ := by
  rw [bound, foldl_bind]
  simp

/-! ### Entries of the index spaces -/

theorem Resolved.forall₂_members (h : l.Resolved) :
    List.Forall₂ (fun imp x => Matches l.module.types l.store.objects imp.desc x)
      l.module.imports l.members := by
  rw [members]
  unfold Resolved at h
  generalize l.module.imports = imports at h ⊢
  induction imports with
  | nil => exact .nil
  | cons imp rest ih =>
    obtain ⟨x, hx, hmatches⟩ := h imp (List.mem_cons_self ..)
    rw [List.filterMap_cons, hx]
    exact .cons hmatches (ih fun imp himp => h imp (List.mem_cons_of_mem _ himp))

/-- The imported functions have the types that the module expects. -/
theorem Resolved.forall₂_importedFuncs (h : l.Resolved) :
    List.Forall₂ (fun t f => l.module.types[t.toNat]? = some f.type) l.module.importedFuncs
      (l.members.filterMap Member.func?) := by
  refine List.rel_filterMap (fun imp x hmatches => ?_) h.forall₂_members
  generalize imp.desc = desc at hmatches
  cases hmatches with
  | func h => exact .some h
  | _ => exact .none

/-- The imported globals have cells of the types that the module expects. -/
theorem Resolved.forall₂_importedGlobals (h : l.Resolved) :
    List.Forall₂ (Safety.HasCell l.store.objects) l.module.importedGlobals
      (l.members.filterMap Member.global?) := by
  refine List.rel_filterMap (fun imp x hmatches => ?_) h.forall₂_members
  generalize imp.desc = desc at hmatches
  cases hmatches with
  | global hc h => exact .some ⟨_, hc, h⟩
  | _ => exact .none

theorem Resolved.cells_imported (h : l.Resolved) :
    Cells l.module l.store.objects l.bound.globals l.importedCells ∧
      l.importedCells.map Cell.type = l.module.importedGlobals := by
  have hheld : List.Forall₂ (fun a c => l.store.objects.globals[a]? = some c)
      (l.members.filterMap Member.global?) l.importedCells ∧
      l.importedCells.map Cell.type = l.module.importedGlobals := by
    have hglobals := h.forall₂_importedGlobals
    unfold importedCells
    generalize l.members.filterMap Member.global? = addresses at hglobals
    generalize l.module.importedGlobals = types at hglobals
    induction hglobals with
    | nil => exact ⟨.nil, rfl⟩
    | cons hcell _ ih =>
      obtain ⟨c, hc, rfl⟩ := hcell
      rw [List.filterMap_cons, hc]
      exact ⟨.cons hc ih.1, by rw [List.map_cons, ih.2]⟩
  refine ⟨⟨?_, ?_⟩, hheld.2⟩
  · rw [bound_eq]
    exact hheld.1
  · rw [hheld.2]
    exact List.prefix_append ..

/-- What an index that is imported stands for: the last member of its kind, which is there. -/
theorem Resolved.exists_last (h : l.Resolved) {select : Member → Option Address}
    {kind : ExternKind} {Held : Address → Prop}
    (hselect : ∀ {desc x}, Matches l.module.types l.store.objects desc x →
      (desc.kind = kind → ∃ a, select x = some a) ∧ ∀ {a}, select x = some a → Held a)
    (hcount : 0 < l.module.importCount kind) :
    ∃ a, (l.members.filterMap select).getLast? = some a ∧ Held a := by
  obtain ⟨imp, himp, hkind⟩ := List.countP_pos_iff.mp hcount
  obtain ⟨x, hx, hmatches⟩ := h imp himp
  obtain ⟨a, ha⟩ := (hselect hmatches).1 (of_decide_eq_true hkind)
  have hmem : a ∈ l.members.filterMap select :=
    List.mem_filterMap.mpr ⟨x, List.mem_filterMap.mpr ⟨imp, himp, hx⟩, ha⟩
  have hlast := List.getLast_mem (List.ne_nil_of_mem hmem)
  refine ⟨_, List.getLast?_eq_some_getLast (List.ne_nil_of_mem hmem), ?_⟩
  obtain ⟨y, hy, hlast⟩ := List.mem_filterMap.mp hlast
  obtain ⟨imp', himp', hy⟩ := List.mem_filterMap.mp hy
  obtain ⟨y', hy', hmatches'⟩ := h imp' himp'
  obtain rfl := Option.some.inj (hy.symm.trans hy')
  exact (hselect hmatches').2 hlast

theorem memory?_eq_some_iff {a : Address} {mem : Memory} :
    l.memory? = some (a, mem) ↔ l.memoryAt? = some a ∧ l.memories[a]? = some mem := by
  simp [memory?, Option.bind_eq_some_iff]

theorem table?_eq_some_iff {a : Address} {t : Table} :
    l.table? = some (a, t) ↔ l.tableAt? = some a ∧ l.tables[a]? = some t := by
  simp [table?, Option.bind_eq_some_iff]

/-- A module that needs a memory has one. -/
theorem Resolved.exists_memory (h : l.Resolved) (hcount : 0 < l.module.count .memory) :
    ∃ a mem, l.memory? = some (a, mem) := by
  simp only [memory?_eq_some_iff, memoryAt?, memories]
  cases hmemories : l.module.memories with
  | cons limits rest => exact ⟨_, _, rfl, Array.getElem?_push_size⟩
  | nil =>
    rw [Module.count, hmemories] at hcount
    obtain ⟨a, ha, mem, hmem⟩ := h.exists_last Matches.memory?_spec hcount
    exact ⟨a, mem, ha, hmem⟩

/-- A module that needs a table has one. -/
theorem Resolved.exists_table (h : l.Resolved) (hcount : 0 < l.module.count .table) :
    ∃ a t, l.table? = some (a, t) := by
  simp only [table?_eq_some_iff, tableAt?, tables]
  cases htables : l.module.tables with
  | cons type rest => exact ⟨_, _, rfl, Array.getElem?_push_size⟩
  | nil =>
    rw [Module.count, htables] at hcount
    obtain ⟨a, ha, t, ht⟩ := h.exists_last Matches.table?_spec hcount
    exact ⟨a, t, ha, ht⟩

end Linkage

end Instantiation

end Wasm
