import Wasm.Proofs.Growth.Histories
import Wasm.Proofs.Instantiation.IndexSpaces
import Wasm.Proofs.Safety.Returns

/-!
# Bounds that last

Two promises about memories and tables that several instances and the host share.  The limits with
which one of them has been imported stay satisfied in every later store (`import_limits_last`).  A
memory never has more pages than its creator allowed: the configuration of the instance that defines
it, or the host (`memory_bound_lasts`).  The configuration of an instance that imports a memory has
no say in this (`import_exceeds_config`).
-/

namespace Wasm.Growth

open Instantiation (Linkage Matches)

variable {s s' : Store} {l : Linkage}

/-! ### A memory that is imported and grown -/

/-- A module that imports a memory of at most two pages, and has a function that grows it by one. -/
def growerModule : Module :=
  { types := [⟨[], [.i32]⟩]
    imports := [⟨"a", "m", .memory ⟨0, some 2⟩⟩]
    functions := [0]
    codes := [⟨[], [.plain (.const .i32) (.value (.i32 1)), .plain .memoryGrow .none]⟩] }

/-- The host provides a memory without pages; the configuration allows none. -/
def grower : Linkage where
  store := ⟨⟨#[⟨⟨0, some 2⟩, 65536, .empty⟩], #[], #[]⟩, #[], [], []⟩
  externals := [("a", .native ⟨"a", [("m", .memory 0)]⟩)]
  module := growerModule
  config := { maxMemoryPages := 0 }

/-- The only instance of the module. -/
def growerBindings : Bindings :=
  ⟨0, growerModule, { maxMemoryPages := 0 },
    #[.defined ⟨[], [.i32]⟩ 0 [.plain (.const .i32) (.value (.i32 1)), .plain .memoryGrow .none]],
    #[], some 0, none⟩

/-- The store with the instance, in which nothing runs, and with these bytes in the memory. -/
def growerStore (bytes : ByteArray) : Store :=
  ⟨⟨#[⟨⟨0, some 2⟩, 65536, bytes⟩], #[], #[]⟩,
    #[some ⟨growerBindings, .idle { maxMemoryPages := 0 }, false⟩], [], []⟩

theorem instantiate_grower : grower.store.instantiate 0 grower.externals grower.module
    grower.config = some (.ok 0, growerStore .empty) := rfl

theorem invoke_grower : (growerStore .empty).invokeIndex 4 0 0 [] =
    some (.ok [.i32 0], growerStore (Memory.appendPages .empty 1)) := rfl

theorem history_grower : History {} grower.store := by
  have hallocate : Memory.allocate ⟨0, some 2⟩ 65536 = .ok ⟨⟨0, some 2⟩, 65536, .empty⟩ := rfl
  exact .single (.addMemory {} hallocate)

/-- The instance grows the memory. -/
theorem history_grown :
    History (growerStore .empty) (growerStore (Memory.appendPages .empty 1)) :=
  .head (.call (growerStore .empty) 0 true 0 [] []) (history_run invoke_grower)

/-! ### Import limits -/

/-- An import of a kind of which there is one at most: nothing else of the kind is there, and it is
the import that counts. -/
theorem getLast?_of_import (select : Member → Option Address) (h : l.Resolved)
    {kind : ExternKind} {n : Nat} (hselect : ∀ {desc x},
      Matches l.module.types l.store.objects desc x → ((select x).isSome ↔ desc.kind = kind))
    (hcount : l.module.importCount kind + n ≤ 1) {imp : Import} {x : Member} {k : Address}
    (himp : imp ∈ l.module.imports) (hx : l.member? imp = some x) (hk : select x = some k) :
    n = 0 ∧ (l.members.filterMap select).getLast? = some k := by
  rw [Linkage.Resolved.importCount_eq h hselect] at hcount
  have hmem : k ∈ l.members.filterMap select :=
    List.mem_filterMap.mpr ⟨x, List.mem_filterMap.mpr ⟨imp, himp, hx⟩, hk⟩
  have hlength : 0 < (l.members.filterMap select).length := List.length_pos_of_mem hmem
  obtain ⟨k', hlist⟩ : ∃ k', l.members.filterMap select = [k'] :=
    List.length_eq_one_iff.mp (by omega)
  refine ⟨by omega, ?_⟩
  rw [hlist, List.mem_singleton] at hmem
  rw [hlist, hmem]
  rfl

theorem start_stays {fuel : Nat} {a : Address} {index : Option UInt32} {r : Except Error Unit}
    (h : s.start fuel a index = some (r, s')) : s.Stays s' := by
  unfold Store.start at h
  split at h
  · cases h
    exact Store.stays_refl s
  · next index =>
    obtain ⟨⟨r', s''⟩, hrun, heq⟩ := Option.map_eq_some_iff.mp h
    have hcall := (Safety.moves_invokeIndex s a true index [] []).trans (Safety.moves_of_run hrun)
    cases r' <;> cases heq <;> exact Safety.Moves.stays hcall

/-- The instance that a successful instantiation has set up. -/
theorem setUp_of_instantiate {fuel : Nat} {a : Address}
    (h : l.store.instantiate fuel l.externals l.module l.config = some (.ok a, s')) :
    l.Resolved ∧ Validation.module l.module = .ok () ∧ ∃ b, s'.bindings? a = some b ∧
      ∃ o, SetUp l.bound b l.store.objects o ∧ o.Evolves s'.objects := by
  obtain ⟨s₁, hlink, hstart⟩ := Linkage.instantiate_eq_ok.mp h
  obtain ⟨hvalid, ha, -⟩ := Linkage.link_eq_ok (l := l) (a := a) (by rw [hlink])
  rcases link_cases l with ⟨e, herror⟩ | ⟨hresolved, ⟨e, o, -, herror⟩ | ⟨b, o, hsetup, hok⟩⟩
  · cases hlink.symm.trans herror
  · cases hlink.symm.trans herror
  · obtain ⟨-, rfl⟩ := Prod.mk.inj (hlink.symm.trans hok)
    refine ⟨hresolved, hvalid, b, ?_, o, hsetup, (history_start hstart).evolves⟩
    rw [(start_stays hstart).bindings, Safety.bindings?_push, if_pos ha]
    rfl

/-- Limits that have been matched admit whatever becomes of what they were matched with. -/
theorem exists_admitted {α : Type} {extent : α → Extent} {xs ys : Array α} {k : Nat} {x : α}
    {required : Limits} (h : Grown extent xs ys) (hx : xs[k]? = some x)
    (hcontained : (extent x).Contained) (hordered : (extent x).limits.Ordered)
    (hfits : Limits.Fits ⟨.ofNat (extent x).size, (extent x).limits.max⟩ required) :
    ∃ y, ys[k]? = some y ∧ required.Admits (.ofNat (extent y).size) := by
  obtain ⟨y, hy, hbecomes⟩ := h.kept hx
  exact ⟨y, hy, hbecomes.admits hcontained hordered hfits⟩

/-- Matching is a preorder on limits.  When a module has been instantiated, each memory and each
table that it imports is there, under the address that the instance has for it.  If the limits of
that object are in order, then in every later store its size is at least the minimum that the import
requires and, if this requires a maximum, at most that. -/
theorem import_limits_last :
    (∀ l : Limits, l.fits l = true) ∧
    (∀ {l₁ l₂ l₃ : Limits}, l₁.fits l₂ = true → l₂.fits l₃ = true → l₁.fits l₃ = true) ∧
    ∀ {s s' : Store} {fuel : Nat} {externals : Externals} {m : Module} {config : Config}
      {a : Address}, History {} s → s.instantiate fuel externals m config = some (.ok a, s') →
      ∃ b, s'.bindings? a = some b ∧ ∀ imp ∈ m.imports,
        (∀ {required : Limits}, imp.desc = .memory required → ∃ k mem, b.memory = some k ∧
          s.objects.memories[k]? = some mem ∧ (mem.limits.Ordered → ∀ {s'' : Store}, History s' s'' →
            ∃ mem', s''.objects.memories[k]? = some mem' ∧ required.Admits mem'.size)) ∧
        ∀ {required : TableType}, imp.desc = .table required → ∃ k t, b.table = some k ∧
          s.objects.tables[k]? = some t ∧ (t.type.limits.Ordered → ∀ {s'' : Store}, History s' s'' →
            ∃ t', s''.objects.tables[k]? = some t' ∧ required.limits.Admits t'.size) := by
  simp only [Limits.fits_eq_true_iff]
  refine ⟨Limits.fits_refl, Limits.Fits.trans, ?_⟩
  intro s s' fuel externals m config a hreached hrun
  obtain ⟨hresolved, hvalid, b, hb, o, hsetup, hevolves⟩ :=
    setUp_of_instantiate (l := ⟨s, externals, m, config⟩) hrun
  obtain ⟨htables, hmemories⟩ := Instantiation.counts_of_module hvalid
  obtain ⟨hcontained, hcontained'⟩ := contained_of_history hreached
  have hevolves := hsetup.evolves.trans hevolves
  have hbound := Linkage.bound_eq (l := ⟨s, externals, m, config⟩)
  -- A valid module has at most one memory and one table, so one that is imported is the only one,
  -- and the set-up defines none in its place.
  refine ⟨b, hb, fun imp himp => ⟨fun {required} hdesc => ?_, fun {required} hdesc => ?_⟩⟩
  · obtain ⟨x, hx, hmatches⟩ := hresolved imp himp
    rw [hdesc] at hmatches
    cases hmatches with
    | @memory _ k mem hmem hfits =>
      obtain ⟨hnone, hlast⟩ := getLast?_of_import Member.memory? hresolved
        (fun hmatches => by cases hmatches <;> simp [Member.memory?, ImportDesc.kind]) hmemories
        himp hx rfl
      refine ⟨k, mem, ?_, hmem, fun hordered {s''} hlater => ?_⟩
      · rw [hsetup.memory (by rw [hbound]; exact List.length_eq_zero_iff.mp hnone), hbound]
        exact hlast
      · exact exists_admitted (hevolves.trans hlater.evolves).memories hmem (hcontained hmem)
          hordered hfits
  · obtain ⟨x, hx, hmatches⟩ := hresolved imp himp
    rw [hdesc] at hmatches
    cases hmatches with
    | @table _ k t ht hfits =>
      obtain ⟨hnone, hlast⟩ := getLast?_of_import Member.table? hresolved
        (fun hmatches => by cases hmatches <;> simp [Member.table?, ImportDesc.kind]) htables
        himp hx rfl
      refine ⟨k, t, ?_, ht, fun hordered {s''} hlater => ?_⟩
      · rw [hsetup.table (by rw [hbound]; exact List.length_eq_zero_iff.mp hnone), hbound]
        exact hlast
      · exact exists_admitted (hevolves.trans hlater.evolves).tables ht (hcontained' ht)
          hordered hfits

/-- The instance has grown the memory; its size is still what the import requires. -/
theorem grower_admitted : ∃ mem,
    (growerStore (Memory.appendPages .empty 1)).objects.memories[0]? = some mem ∧
      Limits.Admits ⟨0, some 2⟩ mem.size := by
  obtain ⟨-, -, hlasts⟩ := import_limits_last
  obtain ⟨b, hb, himports⟩ := hlasts history_grower instantiate_grower
  obtain rfl : growerBindings = b := Option.some.inj hb
  obtain ⟨k, mem, hk, hmem, hlater⟩ :=
    (himports ⟨"a", "m", .memory ⟨0, some 2⟩⟩ (List.mem_singleton.mpr rfl)).1 rfl
  obtain rfl : 0 = k := Option.some.inj hk
  obtain rfl : ⟨⟨0, some 2⟩, 65536, .empty⟩ = mem := Option.some.inj hmem
  have hordered : Limits.Ordered ⟨0, some 2⟩ := fun max hmax => by
    cases hmax
    decide
  exact hlater hordered history_grown

/-! ### Memory bounds -/

/-- A memory that the host has allocated keeps the bound that it was given. -/
theorem bound_of_allocate {limits : Limits} {maxPages : UInt32} {m : Memory}
    (hm : Memory.allocate limits maxPages = .ok m) (h : History (s.addMemory m).2 s') :
    ∃ mem, s'.objects.memories[(s.addMemory m).1]? = some mem ∧ mem.maxPages = maxPages := by
  obtain ⟨-, -, hbound⟩ := Memory.extent_allocate hm
  have hpush : (s.addMemory m).2.objects.memories[(s.addMemory m).1]? = some m :=
    Array.getElem?_push_size
  obtain ⟨mem, hmem, hbecomes⟩ := h.evolves.memories.kept hpush
  exact ⟨mem, hmem, hbecomes.bound.trans hbound⟩

/-- The memory of an instance is there and has no more pages than its bound.  The bound is that of
the configuration of whichever instance defines the memory, or the one that the host gave when it
created the memory.  It never changes, and neither the growth of the memory by this instance nor
anything else that happens later takes the memory beyond it. -/
theorem memory_bound_lasts (h : History {} s) {a : Address} {b : Bindings} {k : Address}
    (hb : s.bindings? a = some b) (hk : b.memory = some k) :
    ∃ mem, s.objects.memories[k]? = some mem ∧ mem.pages ≤ mem.maxPages.toNat ∧
      (∀ {a' : Address} {b' : Bindings}, s.bindings? a' = some b' → b'.module.memories ≠ [] →
        b'.memory = some k → mem.maxPages = b'.config.maxMemoryPages) ∧
      (∀ {s₀ : Store} {limits : Limits} {maxPages : UInt32} {m : Memory},
        Memory.allocate limits maxPages = .ok m → (s₀.addMemory m).1 = k →
        History (s₀.addMemory m).2 s → mem.maxPages = maxPages) ∧
      (∀ t : Thread, match Execution.memoryGrow b ⟨s.objects, t⟩ with
        | .ok _ x | .error _ x => ∃ mem', x.objects.memories[k]? = some mem' ∧
          mem'.maxPages = mem.maxPages ∧ mem'.pages ≤ mem.maxPages.toNat) ∧
      ∀ {s' : Store}, History s s' → ∃ mem', s'.objects.memories[k]? = some mem' ∧
        mem'.maxPages = mem.maxPages ∧ mem'.pages ≤ mem.maxPages.toNat := by
  obtain ⟨mem, hmem⟩ := (housed_of_history h hb).memory hk
  have hcontained := (contained_of_history h).1 hmem
  have hlater {o : Objects} (hevolves : s.objects.Evolves o) : ∃ mem', o.memories[k]? = some mem' ∧
      mem'.maxPages = mem.maxPages ∧ mem'.pages ≤ mem.maxPages.toNat := by
    obtain ⟨mem', hmem', hbecomes⟩ := hevolves.memories.kept hmem
    have hle := (hbecomes.contained hcontained).le_bound
    rw [hbecomes.bound] at hle
    exact ⟨mem', hmem', hbecomes.bound, hle⟩
  refine ⟨mem, hmem, hcontained.le_bound, fun {a' b'} hb' hne hk' => ?_,
    fun {s₀ limits maxPages m} hallocate hk' h' => ?_, fun t => ?_,
    fun {s'} h' => hlater h'.evolves⟩
  · obtain ⟨k', mem', hk'', hmem', hbound⟩ := (housed_of_history h hb').own hne
    obtain rfl := Option.some.inj (hk'.symm.trans hk'')
    obtain rfl := Option.some.inj (hmem.symm.trans hmem')
    exact hbound
  · obtain ⟨mem', hmem', hbound⟩ := bound_of_allocate hallocate h'
    rw [hk'] at hmem'
    obtain rfl := Option.some.inj (hmem.symm.trans hmem')
    exact hbound
  · have hwriting := Execution.writing_memoryGrow (b := b) (x := ⟨s.objects, t⟩)
    unfold Execution.Writing at hwriting
    cases hrun : Execution.memoryGrow b ⟨s.objects, t⟩ with
    | ok _ x =>
      rw [hrun] at hwriting
      exact hlater hwriting.evolves
    | error _ x =>
      rw [hrun] at hwriting
      exact hlater hwriting.evolves

/-- The memory that the instance has grown has the bound that the host has given to it, and another
growth does not exceed that. -/
theorem grower_bounded : ∃ mem,
    ((growerStore (Memory.appendPages .empty 1)).growMemory 0 1).2.objects.memories[0]? = some mem ∧
      mem.maxPages = 65536 ∧ mem.pages ≤ 65536 := by
  have hhistory : History {} (growerStore (Memory.appendPages .empty 1)) :=
    (history_grower.trans (history_instantiate instantiate_grower)).trans history_grown
  have hb : (growerStore (Memory.appendPages .empty 1)).bindings? 0 = some growerBindings := rfl
  obtain ⟨mem, hmem, -, -, -, -, hlater⟩ := memory_bound_lasts (k := 0) hhistory hb rfl
  obtain rfl : ⟨⟨0, some 2⟩, 65536, Memory.appendPages .empty 1⟩ = mem := Option.some.inj hmem
  obtain ⟨mem, hmem, hbound, hle⟩ := hlater (.single (.growMemory _ 0 1))
  have hpages : (65536 : UInt32).toNat = 65536 := rfl
  exact ⟨mem, hmem, hbound, hle.trans_eq hpages⟩

/-- The configuration of the instance allows no pages, but the instance has imported a memory and
grows it by one. -/
theorem import_exceeds_config : History {} (growerStore .empty) ∧
    (growerStore .empty).bindings? 0 = some growerBindings ∧ growerBindings.memory = some 0 ∧
    (growerStore .empty).invokeIndex 4 0 0 [] =
      some (.ok [.i32 0], growerStore (Memory.appendPages .empty 1)) ∧
    ∃ mem, (growerStore (Memory.appendPages .empty 1)).objects.memories[0]? = some mem ∧
      growerBindings.config.maxMemoryPages.toNat < mem.pages := by
  have hgrow : Memory.grow ⟨⟨0, some 2⟩, 65536, .empty⟩ 1 =
    .ok (0, ⟨⟨0, some 2⟩, 65536, Memory.appendPages .empty 1⟩) := rfl
  obtain ⟨-, hpages⟩ := Memory.becomes_grow hgrow
  exact ⟨history_grower.trans (history_instantiate instantiate_grower), rfl, rfl, invoke_grower,
    _, rfl, Nat.lt_of_lt_of_eq (Nat.succ_pos _) hpages.symm⟩

end Wasm.Growth
