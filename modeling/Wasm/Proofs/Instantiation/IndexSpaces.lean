import Wasm.Proofs.Instantiation.Contents
import Wasm.Proofs.Safety.Soundness

/-!
# Index spaces

A module knows its index spaces from its lists of imports and of definitions; an instance has them
as arrays, which several parts of its instantiation fill.  Entry by entry both are the same
(`Aligned`), from the end of the instantiation on: no machine that can be reached later has other
bindings at the address of the instance, and no cell ever changes its type.  A cell that cannot be
set keeps its value (`Objects.Fixes`).
-/

namespace Wasm

/-! ### Entries of a module -/

/-- Entry `index` of an index space, by a scan of the imports with a counter for those that `select`
picks.  After the last one the index less the counter is an index of what is defined; there is no
result at all if the counter is greater. -/
def Module.scan? {α : Type} (select : ImportDesc → Option α) (defined : Nat → Option α)
    (index counter : Nat) : List Import → Option (Option α)
  | [] => if counter ≤ index then some (defined (index - counter)) else none
  | imp :: rest =>
    match select imp.desc with
    | none => scan? select defined index counter rest
    | some a => if counter = index then some (some a) else
      scan? select defined index (counter + 1) rest

/-- The counter never exceeds the index. -/
theorem Module.scan?_eq {α : Type} (select : ImportDesc → Option α) (defined : Nat → Option α)
    (imports : List Import) {index counter : Nat} (h : counter ≤ index) :
    scan? select defined index counter imports =
      some ( entry? select defined imports (index - counter)) := by
  induction imports generalizing counter with
  | nil => exact if_pos h
  | cons imp rest ih =>
    unfold scan? entry?
    cases select imp.desc with
    | none => exact ih h
    | some a =>
      dsimp only
      by_cases heq : counter = index
      · subst heq
        rw [if_pos rfl, Nat.sub_self]
      · obtain ⟨k, rfl⟩ : ∃ k, index = counter + 1 + k := Nat.exists_eq_add_of_le (by omega)
        have hsub : counter + 1 + k - counter = k + 1 := by omega
        rw [if_neg heq, ih (Nat.le_add_right ..), hsub, Nat.add_sub_cancel_left]

theorem Module.length_funcTypeIndices (m : Module) :
    m.funcTypeIndices.length = m.count .func := by
  rw [funcTypeIndices, List.length_append, length_importedFuncs]
  rfl

namespace Instantiation

/-! ### Entries of an instance -/

/-- The index spaces of an instance have the sizes and the types that its module says. -/
structure Aligned (b : Bindings) : Prop where
  funcs : b.funcs.size = b.module.count .func
  func : ∀ x : UInt32, (b.funcs[x.toNat]?).map Func.type = b.module.funcType? x
  globals : b.globals.size = b.module.count .global
  memory : b.memory.isSome ↔ b.module.count .memory = 1
  table : b.table.isSome ↔ b.module.count .table = 1

theorem type_of_funcRef? (b : Bindings) (x : UInt32) :
    (b.funcRef? x).map FuncRef.type = (b.funcs[x.toNat]?).map Func.type := by
  rw [Bindings.funcRef?, Option.map_map]
  refine Option.map_congr fun f _ => ?_
  cases f <;> rfl

namespace Linkage

variable {l : Linkage} {o : Objects} {cells : List Cell} {addresses : Array Address}

/-- The imports of a kind and the members that are selected are as many. -/
theorem Resolved.importCount_eq (h : l.Resolved) {select : Member → Option Address}
    {kind : ExternKind} (hselect : ∀ {desc x}, Matches l.module.types l.store.objects desc x →
      ((select x).isSome ↔ desc.kind = kind)) :
    l.module.importCount kind = (l.members.filterMap select).length := by
  have hmembers := h.forall₂_members
  rw [Module.importCount]
  generalize l.module.imports = imports at hmembers
  generalize l.members = members at hmembers
  induction hmembers with
  | nil => rfl
  | @cons imp x imports members hmatches _ ih =>
    rw [List.countP_cons, List.filterMap_cons, ih]
    have hiff := hselect hmatches
    cases hx : select x with
    | none =>
      have hkind : ¬ imp.desc.kind = kind := fun heq => by simpa [hx] using hiff.mpr heq
      simp [hkind]
    | some a =>
      have hkind : imp.desc.kind = kind := hiff.mp (by rw [hx]; rfl)
      simp [hkind]

theorem Resolved.isSome_memoryAt? (h : l.Resolved) :
    l.memoryAt?.isSome ↔ 0 < l.module.count .memory := by
  have hcount : l.module.importCount .memory = (l.members.filterMap Member.memory?).length :=
    h.importCount_eq fun hmatches => by cases hmatches <;> simp [Member.memory?, ImportDesc.kind]
  rw [memoryAt?, Module.count, hcount]
  generalize l.members.filterMap Member.memory? = addresses
  cases l.module.memories with
  | nil => exact List.getLast?_isSome.trans List.length_pos_iff.symm
  | cons limits rest => exact ⟨fun _ => Nat.succ_pos _, fun _ => rfl⟩

theorem Resolved.isSome_tableAt? (h : l.Resolved) :
    l.tableAt?.isSome ↔ 0 < l.module.count .table := by
  have hcount : l.module.importCount .table = (l.members.filterMap Member.table?).length :=
    h.importCount_eq fun hmatches => by cases hmatches <;> simp [Member.table?, ImportDesc.kind]
  rw [tableAt?, Module.count, hcount]
  generalize l.members.filterMap Member.table? = addresses
  cases l.module.tables with
  | nil => exact List.getLast?_isSome.trans List.length_pos_iff.symm
  | cons type rest => exact ⟨fun _ => Nat.succ_pos _, fun _ => rfl⟩

/-- The types behind the references are those of the module. -/
theorem Resolved.type_of_funcRef? (h : l.Resolved) (x : UInt32) :
    (l.funcRef? x).map FuncRef.type = l.module.funcType? x := by
  rw [funcRef?]
  cases hx : (l.members.filterMap Member.func?)[x.toNat]? with
  | none =>
    dsimp only
    rw [Option.map_map]
    exact congrFun Option.map_id _
  | some f =>
    obtain ⟨t, ht, htype⟩ :=
      Safety.exists_getElem? (Safety.forall₂_flip h.forall₂_importedFuncs) hx
    have hlt := (List.getElem?_eq_some_iff.mp ht).1
    rw [Module.funcType?, Module.funcTypeIndex?_eq, Module.funcTypeIndices,
      List.getElem?_append_left hlt, ht]
    exact htype.symm

theorem size_addresses (hfilled : l.Filled (l.ready addresses) o cells) :
    addresses.size = l.module.count .global := by
  rw [← hfilled.length]
  exact hfilled.held.held.length_eq

/-- What is ready is aligned. -/
theorem aligned_ready (hresolved : l.Resolved) (hchecked : Checked l.module)
    (hfilled : l.Filled (l.ready addresses) o cells) : Aligned (l.ready addresses) := by
  have hmodule : (l.ready addresses).module = l.module := by
    show l.bound.module = _
    rw [bound_eq]
  constructor
  case funcs =>
    have hfuncs : (l.ready addresses).funcs.size = (l.members.filterMap Member.func?).length +
        (l.module.functions.zip l.module.codes).length := by
      show (Instantiate.functions l.bound).funcs.size = _
      simp [Instantiate.functions, bound_eq]
    rw [hfuncs, hmodule, ← hresolved.forall₂_importedFuncs.length_eq, Module.length_importedFuncs,
      List.length_zip, ← hchecked.passed.count, Nat.min_self]
    rfl
  case func =>
    intro x
    have hrefs : (l.ready addresses).funcRef? x = l.funcRef? x :=
      hresolved.funcRef?_functions hchecked.passed
        (b := { l.bound with globals := addresses, memory := l.memoryAt? })
        (by show l.bound.self = _; rw [bound_eq]) hmodule (by show l.bound.funcs = _; rw [bound_eq]) x
    rw [← type_of_funcRef?, hrefs, hresolved.type_of_funcRef?, hmodule]
  case globals =>
    rw [hmodule]
    exact size_addresses hfilled
  case memory =>
    rw [hmodule]
    have hle := hchecked.memories
    exact hresolved.isSome_memoryAt?.trans ⟨fun hpos => by omega, fun heq => by omega⟩
  case table =>
    rw [hmodule]
    have hle := hchecked.tables
    exact hresolved.isSome_tableAt?.trans ⟨fun hpos => by omega, fun heq => by omega⟩

/-! ### What linking leaves behind -/

/-- The instance is ready: its indices are aligned, and its globals have their initial values. -/
structure Stands (l : Linkage) (s : Store) (b : Bindings) : Prop where
  module : b.module = l.module
  aligned : Aligned b
  filled : ∃ cells, l.Filled b s.objects cells

/-- What linking leaves behind: nothing that was there has changed, and at the next address there is
an instance that is ready, or none. -/
structure Leaves (l : Linkage) (s : Store) : Prop where
  keeps : l.store.Keeps s
  fixes : l.store.objects.Fixes s.objects
  bindings : ∀ {a : Address} {b : Bindings}, s.bindings? a = some b →
    l.store.bindings? a = some b ∨ a = l.store.instances.size ∧ l.Stands s b

/-- What has been linked is valid, and stands at the next address. -/
theorem link_eq_ok {a : Address} (h : l.link.1 = .ok a) :
    Validation.module l.module = .ok () ∧ a = l.store.instances.size ∧
      a < l.link.2.instances.size := by
  revert h
  rw [link, Store.link]
  cases Validation.module l.module with
  | error e =>
    intro h
    cases h
  | ok _ =>
    dsimp only
    cases Instantiate.imports l.store l.externals
        ⟨l.store.instances.size, l.module, l.config, #[], #[], none, none⟩ l.module.imports with
    | error e =>
      intro h
      cases h
    | ok b =>
      dsimp only
      cases Instantiate.setup b l.store.objects with
      | error e o =>
        intro h
        cases h
      | ok b o =>
        intro h
        cases h
        exact ⟨rfl, rfl, by simp⟩

theorem leaves_self : l.Leaves l.store :=
  ⟨Store.keeps_refl _, Objects.fixes_of_globals rfl, fun hb => .inl hb⟩

theorem leaves_push {x : Option Instance} (hfixes : l.store.objects.Fixes o)
    (hx : ∀ {b}, x.map (·.bindings) = some b →
      l.Stands ⟨o, l.store.instances.push x, l.store.handles, l.store.events⟩ b) :
    l.Leaves ⟨o, l.store.instances.push x, l.store.handles, l.store.events⟩ := by
  refine ⟨Safety.keeps_push, hfixes, fun {a b} hb => ?_⟩
  rw [Safety.bindings?_push] at hb
  split at hb
  · next ha => exact .inr ⟨ha, hx hb⟩
  · exact .inl hb

theorem fixes_append {new : Array Cell} (h : o.globals = l.store.objects.globals ++ new) :
    l.store.objects.Fixes o := by
  intro a c hc _
  rw [h]
  exact getElem?_append_of_some hc

theorem leaves_link (hread : Binary.ConstantsRead l.module)
    (hvalid : Validation.module l.module = .ok ()) : l.Leaves l.link.2 := by
  have hchecked := checked_of_module hread hvalid
  by_cases hresolved : l.Resolved
  · rw [link_of_resolved hvalid hresolved]
    by_cases haffordable : l.Affordable
    · obtain ⟨cells, new, addresses, -, hfilled, ⟨hfits, hrun⟩ |
        ⟨before, seg, after, hsplit, hbefore, hmiss, e, hrun, hcode⟩⟩ :=
        setup_affordable hresolved hchecked haffordable
      · rw [hrun]
        have hglobals : (l.module.segments.foldl l.write
            (l.blank new l.module.segments.length)).globals =
            l.store.objects.globals ++ new.toArray := foldl_globals _
        refine leaves_push (fixes_append hglobals) fun hb => ?_
        obtain rfl := Option.some.inj hb
        have hready := hfilled (b := l.ready addresses) rfl hglobals
        exact ⟨by show l.bound.module = _; rw [bound_eq], aligned_ready hresolved hchecked hready,
          cells, hready⟩
      · rw [hrun]
        exact leaves_push (fixes_append (foldl_globals before)) nofun
    · obtain ⟨e, new, hrun, -⟩ := setup_unaffordable hresolved hchecked haffordable
      rw [hrun]
      exact leaves_push (fixes_append rfl) nofun
  · obtain ⟨e, hlink, -⟩ := link_of_unresolved hvalid hresolved
    rw [hlink]
    exact leaves_self

end Linkage

/-! ### What the embedder does -/

open Safety (Acts Calls Reachable)

variable {s s' : Store} {known known' known₀ : List FuncRef} {m m₀ : Machine}

/-- Each thing that the embedder does leaves all instances alone and fixes what cannot be set, or
gives instances up, or links a module. -/
theorem acts_cases (h : Acts s known s' known') :
    s'.instances = s.instances ∧ s.objects.Fixes s'.objects ∨
      (∃ kept : Address → Bool, s' =
        { s with instances := s.instances.mapIdx fun a i => if kept a then i else none }) ∨
      ∃ l : Linkage, l.store = s ∧ Binary.ConstantsRead l.module ∧
        Validation.module l.module = .ok () ∧ s' = l.link.2 := by
  have hsame {o : Objects} (ho : o.globals = s.objects.globals) : s.objects.Fixes o :=
    Objects.fixes_of_globals ho
  have hserved (h : s.Served (·.Held known) s') :
      s'.instances = s.instances ∧ s.objects.Fixes s'.objects :=
    ⟨h.instances, h.changes.fixes⟩
  cases h with
  | lookup => exact .inl ⟨rfl, hsame rfl⟩
  | slot => exact .inl ⟨rfl, hsame rfl⟩
  | addGlobal c =>
    refine .inl ⟨rfl, fun {a c'} hc' _ => ?_⟩
    show (s.objects.globals.push c)[a]? = some c'
    obtain ⟨hlt, rfl⟩ := Array.getElem?_eq_some_iff.mp hc'
    exact Array.getElem?_push_lt hlt
  | assignGlobal a v => exact .inl (hserved (Store.served_assignGlobal _ s a v))
  | addMemory m => exact .inl ⟨rfl, hsame rfl⟩
  | growMemory a delta => exact .inl (hserved (Store.served_growMemory _ s a delta))
  | assignMemory a offset data =>
    exact .inl (hserved (Store.served_assignMemory _ s a offset data))
  | addTable type => exact .inl ⟨rfl, hsame rfl⟩
  | growTable a delta => exact .inl (hserved (Store.served_growTable _ s a delta))
  | setSlot a index f hf => exact .inl (hserved (s.served_setSlot a index hf))
  | note handles events => exact .inl ⟨rfl, hsame rfl⟩
  | forget kept => exact .inr (.inl ⟨kept, rfl⟩)
  | @link input module externals config b b' o hdecode hvalid _ himports hsetup =>
    refine .inr (.inr ⟨⟨s, externals, module, config⟩, rfl, Binary.constantsRead_of_decode hdecode,
      hvalid, ?_⟩)
    rw [Linkage.link, Store.link, hvalid]
    dsimp only
    rw [himports]
    dsimp only
    rw [hsetup]
  | @abort input module externals config b e o hdecode hvalid _ himports hsetup =>
    refine .inr (.inr ⟨⟨s, externals, module, config⟩, rfl, Binary.constantsRead_of_decode hdecode,
      hvalid, ?_⟩)
    rw [Linkage.link, Store.link, hvalid]
    dsimp only
    rw [himports]
    dsimp only
    rw [hsetup]

/-- What was there before stays, and new instances are aligned. -/
theorem acts_align (h : Acts s known s' known') :
    s.Keeps s' ∧ s.objects.Fixes s'.objects ∧ ∀ {a : Address} {b : Bindings},
      s'.bindings? a = some b → s.bindings? a = some b ∨ Aligned b := by
  rcases acts_cases h with ⟨hinstances, hfixes⟩ | ⟨kept, rfl⟩ | ⟨l, rfl, hread, hvalid, rfl⟩
  · have hstays := Store.stays_of_instances hinstances
    exact ⟨hstays.keeps, hfixes, fun {a b} hb => .inl ((hstays.bindings a).symm.trans hb)⟩
  · exact ⟨⟨by simp, fun _ hb => Safety.bindings?_forget hb⟩, Objects.fixes_of_globals rfl,
      fun hb => .inl (Safety.bindings?_forget hb)⟩
  · have hleaves := Linkage.leaves_link hread hvalid
    exact ⟨hleaves.keeps, hleaves.fixes, fun hb => (hleaves.bindings hb).imp_right (·.2.aligned)⟩

/-- In every machine that can be reached, the indices of every instance are aligned. -/
theorem aligned_of_reachable (h : Reachable known m) {a : Address} {b : Bindings}
    (hb : m.store.bindings? a = some b) : Aligned b := by
  induction h with
  | start =>
    obtain ⟨i, hi, -⟩ := Safety.exists_instance hb
    cases Safety.lt_size hi
  | act _ hacts ih =>
    rcases (acts_align hacts).2.2 hb with hb | haligned
    · exact ih hb
    · exact haligned
  | call _ hcalls ih => exact ih (((Safety.moves_of_calls hcalls).stays.bindings a).symm.trans hb)
  | step _ ih => exact ih (((Safety.moves_step _).stays.bindings a).symm.trans hb)

/-! ### Later machines -/

/-- The machines that can be reached from a given one. -/
inductive Onward (known₀ : List FuncRef) (m₀ : Machine) : List FuncRef → Machine → Prop where
  | refl : Onward known₀ m₀ known₀ m₀
  | act {known known' : List FuncRef} {s s' : Store} {r : Except Error (List Value)}
      (h : Onward known₀ m₀ known ⟨s, .returned r, []⟩) (hacts : Acts s known s' known') :
      Onward known₀ m₀ known' ⟨s', .returned r, []⟩
  | call {known : List FuncRef} {s : Store} {r : Except Error (List Value)} {m : Machine}
      (h : Onward known₀ m₀ known ⟨s, .returned r, []⟩) (hcalls : Calls s known m) :
      Onward known₀ m₀ known m
  | step {known : List FuncRef} {m : Machine} (h : Onward known₀ m₀ known m) :
      Onward known₀ m₀ known m.step

theorem Onward.reachable (h : Onward known₀ m₀ known m) (hreached : Reachable known₀ m₀) :
    Reachable known m := by
  induction h with
  | refl => exact hreached
  | act _ hacts ih => exact ih.act hacts
  | call _ hcalls ih => exact ih.call hcalls
  | step _ ih => exact ih.step

/-- Addresses are not used again, and what cannot be set stays as it is. -/
theorem Onward.keeps (h : Onward known₀ m₀ known m) :
    m₀.store.Keeps m.store ∧ m₀.store.objects.Fixes m.store.objects := by
  induction h with
  | refl => exact ⟨Store.keeps_refl _, Objects.fixes_of_globals rfl⟩
  | act _ hacts ih =>
    obtain ⟨hkeeps, hfixes, -⟩ := acts_align hacts
    exact ⟨ih.1.trans hkeeps, Objects.Fixes.trans ih.2 hfixes⟩
  | call _ hcalls ih =>
    have hmoves := Safety.moves_of_calls hcalls
    exact ⟨ih.1.trans hmoves.stays.keeps, Objects.Fixes.trans ih.2 hmoves.changes.fixes⟩
  | @step _ m _ ih =>
    have hmoves := Safety.moves_step m
    exact ⟨ih.1.trans hmoves.stays.keeps, Objects.Fixes.trans ih.2 hmoves.changes.fixes⟩

/-! ### Agreement -/

/-- The indices of an instance stand for what its module says: functions of its types, cells of its
types with values of these, and a memory and a table that are there. -/
structure Agrees (b : Bindings) (o : Objects) : Prop extends Aligned b where
  cell : ∀ {x : UInt32} {type : GlobalType}, b.module.globalType? x = some type →
    ∃ a c, b.globals[x.toNat]? = some a ∧ o.globals[a]? = some c ∧ c.type = type ∧
      c.value.type = type.valueType
  memory_lt : ∀ {a : Address}, b.memory = some a → a < o.memories.size
  table_lt : ∀ {a : Address}, b.table = some a → a < o.tables.size

theorem agrees_of_reachable (h : Reachable known m) {a : Address} {b : Bindings}
    (hb : m.store.bindings? a = some b) : Agrees b m.store.objects := by
  have haligned := aligned_of_reachable h hb
  obtain ⟨⟨_, hsound, _⟩, -⟩ := h.orderly
  have hlinked := (hsound.instances hb).linked
  refine ⟨haligned, fun {x type} htype => ?_, fun {a} ha => ?_, fun {a} ha => ?_⟩
  · obtain ⟨a, c, ha, hc, rfl⟩ := hlinked.globals htype
    exact ⟨a, c, ha, hc, rfl, rfl⟩
  · have hcount := haligned.memory.mp (by rw [ha]; rfl)
    obtain ⟨a', ha', hlt⟩ := hlinked.memory (by omega)
    obtain rfl := Option.some.inj (ha.symm.trans ha')
    exact hlt
  · have hcount := haligned.table.mp (by rw [ha]; rfl)
    obtain ⟨a', ha', hlt⟩ := hlinked.table (by omega)
    obtain rfl := Option.some.inj (ha.symm.trans ha')
    exact hlt

/-- The cells of a new instance that cannot be set hold their initial values in every later
machine. -/
theorem initial_of_onward {l : Linkage} (hread : Binary.ConstantsRead l.module) {a : Address}
    (hlink : l.link.1 = .ok a) {r : Except Error (List Value)}
    (h : Onward known₀ ⟨l.link.2, .returned r, []⟩ known m) {b : Bindings}
    (hb : m.store.bindings? a = some b) : b.module = l.module ∧ ∃ cells, l.globals? = some cells ∧
      ∀ {x : UInt32} {type : GlobalType}, l.module.globalType? x = some type →
        type.isMutable = false → ∃ address c, b.globals[x.toNat]? = some address ∧
          cells[x.toNat]? = some c ∧ m.store.objects.globals[address]? = some c := by
  obtain ⟨hvalid, rfl, hlt⟩ := Linkage.link_eq_ok hlink
  obtain ⟨hkeeps, hfixes⟩ := h.keeps
  have hb' : l.link.2.bindings? l.store.instances.size = some b := hkeeps.bindings hlt hb
  rcases (Linkage.leaves_link hread hvalid).bindings hb' with hold | ⟨-, hmodule, -, cells, hfilled⟩
  · obtain ⟨i, hi, -⟩ := Safety.exists_instance hold
    exact absurd (Safety.lt_size hi) (Nat.lt_irrefl _)
  · refine ⟨hmodule, cells, hfilled.initial, fun {x type} htype himmutable => ?_⟩
    rw [Module.globalType?_eq] at htype
    have hx : x.toNat < cells.length := by
      rw [hfilled.length, ← Module.length_globalTypes]
      exact (List.getElem?_eq_some_iff.mp htype).1
    have hc := List.getElem?_eq_getElem hx
    obtain ⟨address, haddress, hcell⟩ := hfilled.held.exists_address hc
    have hct := (hfilled.held.type_eq hc).symm.trans htype
    refine ⟨address, _, haddress, hc, hfixes hcell ?_⟩
    rw [← himmutable, ← Option.some.inj hct]
    rfl

/-- The index spaces of a module and of its instances agree.  An entry of a module is found by a
scan that never takes more from an index than it has, and there is one for the indices below the
count alone.  In every machine that can be reached, the indices of every instance stand for
functions and cells of the types that its module says, and for a memory or a table if its module has
one.  What has been linked keeps the initial values of its immutable globals in every later
machine. -/
theorem index_spaces_agree :
    (∀ (m : Module) (x : UInt32),
      (m.funcTypeIndex? x = (m.importedFuncs ++ m.functions)[x.toNat]? ∧
        Module.scan? ImportDesc.funcTypeIndex? (fun k => m.functions[k]?) x.toNat 0 m.imports =
          some (m.funcTypeIndex? x) ∧
        (m.funcTypeIndex? x = none ↔ m.count .func ≤ x.toNat)) ∧
      (m.globalType? x = (m.importedGlobals ++ m.globals.map Global.type)[x.toNat]? ∧
        Module.scan? ImportDesc.globalType? (fun k => m.globals[k]?.map Global.type) x.toNat 0
          m.imports = some (m.globalType? x) ∧
        (m.globalType? x = none ↔ m.count .global ≤ x.toNat))) ∧
    (∀ {known : List FuncRef} {m : Machine}, Reachable known m → ∀ {a : Address} {b : Bindings},
      m.store.bindings? a = some b → Agrees b m.store.objects) ∧
    ∀ {l : Linkage} {input : List UInt8}, Binary.decode input = .ok l.module →
      ∀ {a : Address}, l.link.1 = .ok a → ∀ {known₀ known : List FuncRef} {m : Machine}
        {r : Except Error (List Value)}, Onward known₀ ⟨l.link.2, .returned r, []⟩ known m →
      ∀ {b : Bindings}, m.store.bindings? a = some b →
        b.module = l.module ∧ ∃ cells, l.globals? = some cells ∧
          ∀ {x : UInt32} {type : GlobalType}, l.module.globalType? x = some type →
            type.isMutable = false → ∃ address c, b.globals[x.toNat]? = some address ∧
              cells[x.toNat]? = some c ∧ m.store.objects.globals[address]? = some c := by
  refine ⟨fun m x => ⟨⟨m.funcTypeIndex?_eq x, Module.scan?_eq _ _ _ (Nat.zero_le _), ?_⟩,
    m.globalType?_eq x, Module.scan?_eq _ _ _ (Nat.zero_le _), ?_⟩,
    fun {known m} h {a b} hb => agrees_of_reachable h hb,
    fun {l input} hdecode {a} hlink {known₀ known m r} h {b} hb =>
      initial_of_onward (Binary.constantsRead_of_decode hdecode) hlink h hb⟩
  · rw [m.funcTypeIndex?_eq, List.getElem?_eq_none_iff, m.length_funcTypeIndices]
  · rw [m.globalType?_eq, List.getElem?_eq_none_iff, m.length_globalTypes]

theorem held_spread {name : String} {p : Provider}
    (h : (Linkage.spread 1).externals.lookup name = some p) : p.Held [] := by
  rw [Linkage.spread, List.lookup_cons] at h
  split at h
  · cases h
    intro name f hmember
    rw [NativeModule.member?, List.lookup_cons] at hmember
    split at hmember
    · cases hmember
    · rw [List.lookup_cons] at hmember
      split at hmember <;> cases hmember
  · cases h

theorem reachable_spread :
    Reachable [] ⟨(Linkage.spread 1).link.2, .returned (.ok []), []⟩ := by
  have hstore : Reachable [] ⟨(Linkage.spread 1).store, .returned (.ok []), []⟩ :=
    .act (.act .start (.addTable ⟨⟨4, none⟩⟩)) (.addGlobal ⟨false, .i32 1⟩)
  exact hstore.act (.link Linkage.decode_spread rfl held_spread rfl rfl)

/-- The embedder tries to set the immutable global of an instance: its cell still holds 1. -/
theorem spread_keeps_initial :
    ∃ b, ((Linkage.spread 1).link.2.assignGlobal 0 (.i32 9)).2.bindings? 0 = some b ∧
      Agrees b ((Linkage.spread 1).link.2.assignGlobal 0 (.i32 9)).2.objects ∧
      b.globals[0]? = some 0 ∧
      ((Linkage.spread 1).link.2.assignGlobal 0 (.i32 9)).2.objects.globals[0]? =
        some ⟨false, .i32 1⟩ := by
  have hlink : (Linkage.spread 1).link.1 = .ok 0 := rfl
  have hb : ((Linkage.spread 1).link.2.assignGlobal 0 (.i32 9)).2.bindings? 0 =
    some ((Linkage.spread 1).ready #[0]) := rfl
  have honward : Onward [] ⟨(Linkage.spread 1).link.2, .returned (.ok []), []⟩ []
      ⟨((Linkage.spread 1).link.2.assignGlobal 0 (.i32 9)).2, .returned (.ok []), []⟩ :=
    .act .refl (.assignGlobal 0 (.i32 9))
  obtain ⟨-, hagrees, hinitial⟩ := index_spaces_agree
  obtain ⟨-, cells, hcells, hcell⟩ := hinitial Linkage.decode_spread hlink honward hb
  obtain ⟨address, c, haddress, hc, hheld⟩ := @hcell 0 ⟨.i32, false⟩ rfl rfl
  obtain rfl : address = 0 := (Option.some.inj haddress).symm
  obtain rfl : cells = [⟨false, .i32 1⟩] := (Option.some.inj hcells).symm
  obtain rfl : c = ⟨false, .i32 1⟩ := (Option.some.inj hc).symm
  exact ⟨_, hb, hagrees (honward.reachable reachable_spread) hb, haddress, hheld⟩

end Instantiation

end Wasm
