import Wasm.Proofs.Growth.Extents
import Wasm.Proofs.Instantiation.Success
import Wasm.Proofs.Safety.Soundness
import Wasm.Session

/-!
# Histories of a store

Everything that happens to a store is a series of changes: the embedder and host functions work on
objects, modules are linked, instances are given up, and machines begin calls and take their steps.
A `History` puts them in any order, one amid the other.  What each change does to memories and
tables is said once (`Change.result`), and so are the instances that it may bring.
-/

namespace Wasm.Growth

open Instantiate (Setup)
open Safety (Leads leads_get leads_set leads_lift leads_orTrap leads_each)

/-! ### Setting up an instance -/

/-- Where the parts between the imports and the start function lead to: objects evolve, the imported
memory and table stay what they are, and a memory that the module defines is bounded as the
configuration says. -/
structure SetUp (b b' : Bindings) (o o' : Objects) : Prop where
  evolves : o.Evolves o'
  module : b'.module = b.module
  config : b'.config = b.config
  memory : b.module.memories = [] → b'.memory = b.memory
  table : b.module.tables = [] → b'.table = b.table
  own : b.module.memories ≠ [] → ∃ k m, b'.memory = some k ∧ o'.memories[k]? = some m ∧
    m.maxPages = b.config.maxMemoryPages

section Parts

variable {b : Bindings} {o o₀ : Objects}

theorem leads_globals {gs : List Global} {index : Nat} (h : o₀.Evolves o) :
    Leads (Instantiate.globals b index gs) o o₀.Evolves fun b' o' =>
      o₀.Evolves o' ∧ ∃ addresses, b' = { b with globals := addresses } := by
  induction gs generalizing b o index with
  | nil => exact ⟨h, b.globals, rfl⟩
  | cons g rest ih =>
    rw [Instantiate.globals]
    have hinit : Leads (Instantiate.within s!"global[{index}]"
        (Instantiate.lift (Instantiate.constant o b.globals g.init))) o o₀.Evolves
        fun _ o' => o' = o :=
      (leads_lift (Q := fun _ o' => o' = o) h fun _ => rfl).within _
    refine leads_get (hinit.bind fun v o' ho' => ?_)
    subst ho'
    have hpush : o₀.Evolves { o' with globals := o'.globals.push ⟨g.type.isMutable, v⟩ } :=
      h.trans (Objects.evolves_of_eq rfl rfl)
    refine leads_set ((ih hpush).mono ?_)
    rintro b' o'' ⟨hevolves, addresses, rfl⟩
    exact ⟨hevolves, addresses, rfl⟩

theorem leads_memory (h : o₀.Evolves o) :
    Leads (Instantiate.memory b) o o₀.Evolves fun b' o' =>
      o₀.Evolves o' ∧ (∃ memory, b' = { b with memory := memory }) ∧
        (b.module.memories = [] → b'.memory = b.memory) ∧
        (b.module.memories ≠ [] → ∃ k m, b'.memory = some k ∧ o'.memories[k]? = some m ∧
          m.maxPages = b.config.maxMemoryPages) := by
  unfold Instantiate.memory
  cases b.module.memories with
  | nil => exact ⟨h, ⟨b.memory, rfl⟩, fun _ => rfl, fun hne => absurd rfl hne⟩
  | cons limits rest =>
    refine (leads_lift (Q := fun m o' => o' = o ∧ m.extent.Contained ∧
      m.maxPages = b.config.maxMemoryPages) h fun {m} hm => ?_).bind fun m o' hm => ?_
    · obtain ⟨hcontained, -, hbound⟩ := Memory.extent_allocate hm
      exact ⟨rfl, hcontained, hbound⟩
    · obtain ⟨rfl, hcontained, hbound⟩ := hm
      exact ⟨h.trans ⟨grown_push o'.memories hcontained, grown_refl _⟩, ⟨_, rfl⟩, nofun,
        fun _ => ⟨_, m, rfl, Array.getElem?_push_size, hbound⟩⟩

theorem leads_table (h : o₀.Evolves o) :
    Leads (Instantiate.table b) o o₀.Evolves fun b' o' =>
      o₀.Evolves o' ∧ (∃ table, b' = { b with table := table }) ∧
        o'.memories = o.memories ∧ (b.module.tables = [] → b'.table = b.table) := by
  unfold Instantiate.table
  cases b.module.tables with
  | nil => exact ⟨h, ⟨b.table, rfl⟩, rfl, fun _ => rfl⟩
  | cons type rest =>
    exact ⟨h.trans ⟨grown_refl _, grown_push o.tables (Table.extent_allocate type)⟩, ⟨_, rfl⟩, rfl,
      nofun⟩

/-- The offset of a segment changes nothing. -/
theorem leads_offset (outer : String) (addresses : Array Address) (e : Expr) (h : o₀.Evolves o) :
    Leads (Instantiate.within outer do
      Instantiate.lift (Instantiate.offset (← get) addresses e)) o o₀.Evolves
      fun _ o' => o' = o :=
  (leads_get (leads_lift (Q := fun _ o' => o' = o) h fun _ => rfl)).within outer

theorem leads_dataSegment (index : Nat) (d : Data) (h : o₀.Evolves o) :
    Leads (Instantiate.dataSegment b index d) o o₀.Evolves fun _ => o₀.Evolves := by
  unfold Instantiate.dataSegment
  refine (leads_offset _ _ _ h).bind fun position o' ho' => ?_
  subst ho'
  refine (leads_orTrap (Q := fun _ => o₀.Evolves) h fun _ => h).bind fun a o' h => leads_get ?_
  refine (leads_orTrap (Q := fun _ => o₀.Evolves) h fun _ => h).bind fun m o' h => ?_
  split
  · exact h.trans (Objects.evolves_putBytes ..)
  · exact (leads_orTrap h fun h => nomatch h).within _

theorem leads_elementSegment (index : Nat) (e : Element) (h : o₀.Evolves o) :
    Leads (Instantiate.elementSegment b index e) o o₀.Evolves fun _ => o₀.Evolves := by
  unfold Instantiate.elementSegment
  refine (leads_offset _ _ _ h).bind fun position o' ho' => ?_
  subst ho'
  refine (leads_orTrap (Q := fun _ => o₀.Evolves) h fun _ => h).bind fun a o' h => leads_get ?_
  refine (leads_orTrap (Q := fun _ => o₀.Evolves) h fun _ => h).bind fun t o' h => ?_
  split
  · refine (leads_lift (Q := fun _ => o₀.Evolves) h fun _ => h).bind fun funcs o' h => ?_
    exact h.trans (Objects.evolves_putSlots ..)
  · exact leads_orTrap h fun h => nomatch h

/-- What has been bounded as the configuration says stays so. -/
theorem exists_own {o' : Objects} {k : Address} {bound : UInt32} (h : o.Evolves o')
    (hm : ∃ m, o.memories[k]? = some m ∧ m.maxPages = bound) :
    ∃ m, o'.memories[k]? = some m ∧ m.maxPages = bound := by
  obtain ⟨m, hm, hbound⟩ := hm
  obtain ⟨m', hm', hbecomes⟩ := h.memories.kept hm
  exact ⟨m', hm', hbecomes.bound.trans hbound⟩

/-- Segments, written to objects that have evolved before. -/
theorem leads_segments {α : Type} {part : Nat → α → Setup Unit} {items : List α}
    (hpart : ∀ index x o', o.Evolves o' → Leads (part index x) o' o.Evolves fun _ => o.Evolves)
    (h : o₀.Evolves o) : Leads (Instantiate.each part 0 items) o o₀.Evolves
      fun _ o' => o₀.Evolves o' ∧ o.Evolves o' := by
  have hall : Leads (Instantiate.each part 0 items) o o.Evolves fun _ => o.Evolves :=
    leads_each (fun index x _ => hpart index x) (Objects.evolves_refl o)
  unfold Leads at hall ⊢
  cases hrun : Instantiate.each part 0 items o with
  | ok _ o' =>
    rw [hrun] at hall
    exact ⟨h.trans hall, hall⟩
  | error e o' =>
    rw [hrun] at hall
    exact h.trans hall

/-- Everything between the imports and the start function. -/
theorem leads_setup (b : Bindings) (o : Objects) :
    Leads (Instantiate.setup b) o o.Evolves fun b' o' => SetUp b b' o o' := by
  unfold Instantiate.setup
  refine (leads_globals (Objects.evolves_refl o)).bind fun b₁ o₁ ⟨h₁, addresses, hb₁⟩ => ?_
  subst hb₁
  refine (leads_memory h₁).bind fun b₂ o₂ ⟨h₂, ⟨memory, hb₂⟩, himported, hown⟩ => ?_
  subst hb₂
  refine (leads_segments (fun index d _ h => leads_dataSegment index d h) h₂).bind
    fun _ o₃ ⟨h₃, hdata⟩ => ?_
  refine (leads_table h₃).bind fun b₄ o₄ ⟨h₄, ⟨table, hb₄⟩, hmemories, htable⟩ => ?_
  subst hb₄
  refine Leads.bind (leads_segments (fun index e _ h => leads_elementSegment index e h) h₄)
    fun _ o₅ ⟨h₅, helements⟩ => ?_
  refine ⟨h₅, rfl, rfl, himported, htable, fun hne => ?_⟩
  obtain ⟨k, m, hk, hm, hbound⟩ := hown hne
  obtain ⟨m₃, hm₃, hbound₃⟩ := exists_own hdata ⟨m, hm, hbound⟩
  obtain ⟨m₅, hm₅, hbound₅⟩ := exists_own helements ⟨m₃, by rw [hmemories]; exact hm₃, hbound₃⟩
  exact ⟨k, m₅, hk, hm₅, hbound₅⟩

end Parts

/-! ### Changes -/

/-- The memory of an instance is there, and if the module defines it, its bound is that of the
configuration. -/
structure Housed (b : Bindings) (o : Objects) : Prop where
  memory : ∀ {k : Address}, b.memory = some k → ∃ m, o.memories[k]? = some m
  own : b.module.memories ≠ [] → ∃ k m, b.memory = some k ∧ o.memories[k]? = some m ∧
    m.maxPages = b.config.maxMemoryPages

/-- One thing that happens to a store.  What runs may be anything, and so may be what waits. -/
inductive Change : Store → Store → Prop where
  | addGlobal (s : Store) (c : Cell) : Change s (s.addGlobal c).2
  | assignGlobal (s : Store) (a : Address) (v : Value) : Change s (s.assignGlobal a v).2
  | addMemory (s : Store) {limits : Limits} {maxPages : UInt32} {m : Memory}
      (h : Memory.allocate limits maxPages = .ok m) : Change s (s.addMemory m).2
  | growMemory (s : Store) (a : Address) (delta : UInt32) : Change s (s.growMemory a delta).2
  | assignMemory (s : Store) (a : Address) (offset : Nat) (data : List UInt8) :
      Change s (s.assignMemory a offset data).2
  | addTable (s : Store) (type : TableType) : Change s (s.addTable (.allocate type)).2
  | growTable (s : Store) (a : Address) (delta : UInt32) : Change s (s.growTable a delta).2
  | setSlot (s : Store) (a : Address) (index : UInt32) (f : Option FuncRef) :
      Change s (s.setSlot a index f).2
  /-- Handles and events change. -/
  | note (s : Store) (handles : List (String × Address)) (events : List Event) :
      Change s ⟨s.objects, s.instances, handles, events⟩
  /-- Instances are given up. -/
  | forget (s : Store) (kept : Address → Bool) :
      Change s { s with instances := s.instances.mapIdx fun a i => if kept a then i else none }
  /-- A module is instantiated, up to the start function. -/
  | link (s : Store) (externals : Externals) (m : Module) (config : Config) :
      Change s (s.link externals m config).2
  /-- A call begins. -/
  | call (s : Store) (a : Address) (exclusive : Bool) (index : UInt32) (args : List Value)
      (waiting : List Waiting) :
      Change s (Machine.invokeIndex s a exclusive index args waiting).store
  | step (m : Machine) : Change m.store m.step.store

/-- Some changes, one after another. -/
abbrev History : Store → Store → Prop :=
  Relation.ReflTransGen Change

/-- What a change leaves behind. -/
structure Result (s s' : Store) : Prop where
  evolves : s.objects.Evolves s'.objects
  bindings : ∀ {a : Address} {b : Bindings}, s'.bindings? a = some b →
    s.bindings? a = some b ∨ a = s.instances.size ∧ Housed b s'.objects

variable {s s' : Store}

/-- A change of objects alone. -/
theorem result_of_instances (hevolves : s.objects.Evolves s'.objects)
    (hinstances : s'.instances = s.instances) : Result s s' := by
  have hstays := Store.stays_of_instances hinstances
  exact ⟨hevolves, fun {a b} hb => .inl ((hstays.bindings a).symm.trans hb)⟩

/-- A request is served. -/
theorem result_of_served {G : FuncRef → Prop} (h : s.Served G s') : Result s s' :=
  result_of_instances h.changes.evolves h.instances

/-- Instances run, and host functions make requests. -/
theorem result_of_moves {G : FuncRef → Prop} {acts acts' : List Activation}
    (h : Safety.Moves G (s, acts) (s', acts')) : Result s s' :=
  ⟨h.changes.evolves, fun {a _} hb => .inl ((h.stays.bindings a).symm.trans hb)⟩

/-- An imported memory is there. -/
theorem exists_memory_of_bound {l : Instantiation.Linkage} (h : l.Resolved) {k : Address}
    (hk : l.bound.memory = some k) : ∃ m, l.store.objects.memories[k]? = some m := by
  rw [Instantiation.Linkage.bound_eq] at hk
  obtain ⟨x, hx, hxk⟩ := List.mem_filterMap.mp (List.mem_of_getLast? hk)
  obtain ⟨imp, himp, hx⟩ := List.mem_filterMap.mp hx
  obtain ⟨y, hy, hmatches⟩ := h imp himp
  obtain rfl := Option.some.inj (hx.symm.trans hy)
  exact hmatches.memory?_spec.2 hxk

/-- What linking leads to: nothing happens at all, or the next address is taken, by nothing if a
part fails, or else by an instance that has been set up. -/
theorem link_cases (l : Instantiation.Linkage) :
    (∃ e, l.link = (.error e, l.store)) ∨ l.Resolved ∧
      ((∃ e o, l.store.objects.Evolves o ∧ l.link =
        (.error e, ⟨o, l.store.instances.push none, l.store.handles, l.store.events⟩)) ∨
      ∃ b o, SetUp l.bound b l.store.objects o ∧ l.link = (.ok l.store.instances.size,
        ⟨o, l.store.instances.push (some ⟨b, .idle l.config, false⟩), l.store.handles,
          l.store.events⟩)) := by
  cases hvalid : Validation.module l.module with
  | error e => exact .inl ⟨e, Instantiation.Linkage.link_of_invalid hvalid⟩
  | ok _ =>
    by_cases hresolved : l.Resolved
    · refine .inr ⟨hresolved, ?_⟩
      rw [Instantiation.Linkage.link_of_resolved hvalid hresolved]
      have hsetup := leads_setup l.bound l.store.objects
      unfold Leads at hsetup
      cases hrun : Instantiate.setup l.bound l.store.objects with
      | error e o =>
        rw [hrun] at hsetup
        exact .inl ⟨e, o, hsetup, rfl⟩
      | ok b o =>
        rw [hrun] at hsetup
        exact .inr ⟨b, o, hsetup, rfl⟩
    · obtain ⟨e, hlink, -⟩ := Instantiation.Linkage.link_of_unresolved hvalid hresolved
      exact .inl ⟨e, hlink⟩

/-- The memory of an instance that has been set up is there. -/
theorem SetUp.housed {l : Instantiation.Linkage} {b : Bindings} {o : Objects}
    (h : SetUp l.bound b l.store.objects o) (hresolved : l.Resolved) : Housed b o := by
  refine ⟨fun {k} hk => ?_, fun hne => ?_⟩
  · by_cases hnone : l.bound.module.memories = []
    · rw [h.memory hnone] at hk
      obtain ⟨m, hm⟩ := exists_memory_of_bound hresolved hk
      obtain ⟨m', hm', -⟩ := h.evolves.memories.kept hm
      exact ⟨m', hm'⟩
    · obtain ⟨k', m, hk', hm, -⟩ := h.own hnone
      obtain rfl := Option.some.inj (hk.symm.trans hk')
      exact ⟨m, hm⟩
  · rw [h.module] at hne
    rw [h.config]
    exact h.own hne

theorem result_link (l : Instantiation.Linkage) : Result l.store l.link.2 := by
  rcases link_cases l with ⟨e, hlink⟩ | ⟨hresolved, ⟨e, o, hevolves, hlink⟩ | ⟨b, o, hsetup, hlink⟩⟩
  · rw [hlink]
    exact result_of_instances (Objects.evolves_refl _) rfl
  · rw [hlink]
    refine ⟨hevolves, fun {a b} hb => ?_⟩
    rw [Safety.bindings?_push] at hb
    split at hb
    · cases hb
    · exact .inl hb
  · rw [hlink]
    refine ⟨hsetup.evolves, fun {a b'} hb => ?_⟩
    rw [Safety.bindings?_push] at hb
    split at hb
    · next ha =>
      obtain rfl := Option.some.inj hb
      exact .inr ⟨ha, hsetup.housed hresolved⟩
    · exact .inl hb

theorem Change.result (h : Change s s') : Result s s' := by
  -- The functions in tables do not matter here.
  let anything : FuncRef → Prop := fun _ => True
  cases h with
  | addGlobal s c => exact result_of_instances (Objects.evolves_of_eq rfl rfl) rfl
  | assignGlobal s a v => exact result_of_served (Store.served_assignGlobal anything s a v)
  | addMemory s h =>
    exact result_of_instances
      ⟨grown_push s.objects.memories (Memory.extent_allocate h).1, grown_refl _⟩ rfl
  | growMemory s a delta => exact result_of_served (Store.served_growMemory anything s a delta)
  | assignMemory s a offset data =>
    exact result_of_served (Store.served_assignMemory anything s a offset data)
  | addTable s type =>
    exact result_of_instances
      ⟨grown_refl _, grown_push s.objects.tables (Table.extent_allocate type)⟩ rfl
  | growTable s a delta => exact result_of_served (Store.served_growTable anything s a delta)
  | setSlot s a index f =>
    exact result_of_served (s.served_setSlot (G := anything) a index fun _ _ => trivial)
  | note s handles events => exact result_of_instances (Objects.evolves_refl _) rfl
  | forget s kept =>
    exact ⟨Objects.evolves_refl _, fun hb => .inl (Safety.bindings?_forget hb)⟩
  | link s externals m config => exact result_link ⟨s, externals, m, config⟩
  | call s a exclusive index args waiting =>
    exact result_of_moves (Safety.moves_invokeIndex (G := anything) s a exclusive index args waiting)
  | step m => exact result_of_moves (Safety.moves_step m)

theorem History.evolves (h : History s s') : s.objects.Evolves s'.objects := by
  induction h with
  | refl => exact Objects.evolves_refl _
  | tail _ hchange ih => exact ih.trans hchange.result.evolves

theorem Housed.evolves {b : Bindings} {o o' : Objects} (h : Housed b o) (hevolves : o.Evolves o') :
    Housed b o' := by
  refine ⟨fun {k} hk => ?_, fun hne => ?_⟩
  · obtain ⟨m, hm⟩ := h.memory hk
    obtain ⟨m', hm', -⟩ := hevolves.memories.kept hm
    exact ⟨m', hm'⟩
  · obtain ⟨k, m, hk, hm, hbound⟩ := h.own hne
    obtain ⟨m', hm', hbound'⟩ := exists_own hevolves ⟨m, hm, hbound⟩
    exact ⟨k, m', hk, hm', hbound'⟩

/-- In every store that has come about, memories and tables are within their limits. -/
theorem contained_of_history (h : History {} s) :
    (∀ {k : Address} {m : Memory}, s.objects.memories[k]? = some m → m.extent.Contained) ∧
      ∀ {k : Address} {t : Table}, s.objects.tables[k]? = some t → t.extent.Contained :=
  ⟨fun hm => h.evolves.memories.new rfl hm, fun ht => h.evolves.tables.new rfl ht⟩

/-- In every store that has come about, the memories of instances are there. -/
theorem housed_of_history (h : History {} s) {a : Address} {b : Bindings}
    (hb : s.bindings? a = some b) : Housed b s.objects := by
  induction h with
  | refl =>
    obtain ⟨i, hi, -⟩ := Safety.exists_instance hb
    cases Safety.lt_size hi
  | tail _ hchange ih =>
    rcases hchange.result.bindings hb with hold | ⟨-, hhoused⟩
    · exact (ih hold).evolves hchange.result.evolves
    · exact hhoused

/-! ### Whole operations -/

theorem history_invokeHandle (s : Store) (a : Address) (name : String) (args : List Value)
    (waiting : List Waiting) : History s (Machine.invokeHandle s a name args waiting).store := by
  rcases Safety.invokeHandle_cases s a name args waiting with ⟨e, h⟩ | ⟨index, h⟩
  · rw [h]
  · rw [h]
    exact .single (.call ..)

/-- A computation, whatever it is. -/
theorem history_run {fuel : Nat} {m : Machine} {r : Except Error (List Value)}
    (h : m.run fuel = some (r, s')) : History m.store s' :=
  Safety.holds_of_run (P := fun m' => History m.store m'.store) (·.tail (.step _)) .refl h

/-- A call of a function of a provider. -/
theorem history_invokeProvided {fuel : Nat} {p : Provider} {name : String} {args : List Value}
    {r : Except Error (List Value)} (h : s.invokeProvided fuel p name args = some (r, s')) :
    History s s' := by
  cases p with
  | native m =>
    have hrun : History (Machine.invokeNative s m name args []).store s' := history_run h
    unfold Machine.invokeNative at hrun
    split at hrun <;> exact hrun
  | «instance» a => exact (history_invokeHandle ..).trans (history_run h)

theorem history_start {fuel : Nat} {a : Address} {index : Option UInt32} {r : Except Error Unit}
    (h : s.start fuel a index = some (r, s')) : History s s' := by
  unfold Store.start at h
  split at h
  · cases h
    exact .refl
  · obtain ⟨⟨r', s''⟩, hrun, heq⟩ := Option.map_eq_some_iff.mp h
    have hcall : History s s'' := .head (.call ..) (history_run hrun)
    cases r' <;> cases heq <;> exact hcall

/-- An instantiation, whether it succeeds or fails. -/
theorem history_instantiate {fuel : Nat} {externals : Externals} {m : Module} {config : Config}
    {r : Except Error Address} (h : s.instantiate fuel externals m config = some (r, s')) :
    History s s' := by
  rw [Store.instantiate_eq] at h
  have hlink : History s (s.link externals m config).2 := .single (.link ..)
  revert h hlink
  obtain ⟨linked, s₁⟩ := s.link externals m config
  intro h hlink
  cases linked with
  | error e =>
    cases h
    exact hlink
  | ok a =>
    obtain ⟨⟨started, s₂⟩, hstart, heq⟩ := Option.map_eq_some_iff.mp h
    have hstarted := hlink.trans (history_start hstart)
    cases started with
    | ok _ =>
      cases heq
      exact hstarted
    | error e =>
      cases heq
      rw [← Safety.forget_eq_setInstance]
      exact hstarted.tail (.forget ..)

theorem history_member (s : Store) (source : MemberSource) : History s (s.member source).2 := by
  cases source with
  | exported a name =>
    unfold Store.member
    dsimp only
    split <;> exact .refl
  | memory limits maxPages =>
    unfold Store.member
    dsimp only
    split
    · exact .refl
    · next m hm => exact .single (.addMemory s hm)
  | table limits => exact .single (.addTable s ⟨limits⟩)
  | func => exact .refl

theorem history_registerAll (s : Store) (r : Registry) (items : List Registration) :
    History s (s.registerAll r items).2 := by
  induction items generalizing s r with
  | nil => exact .refl
  | cons item rest ih =>
    have hitem : History s (s.register r item).2 := by
      cases item with
      | global module name value isMutable => exact .single (.addGlobal ..)
      | member module name source =>
        have hmember := history_member s source
        unfold Store.register
        dsimp only
        split
        · next heq =>
          rw [heq] at hmember
          exact hmember
        · next heq =>
          rw [heq] at hmember
          exact hmember
      | _ => exact .refl
    unfold Store.registerAll
    split
    · next heq =>
      rw [heq] at hitem
      exact hitem
    · next heq =>
      rw [heq] at hitem
      exact hitem.trans (ih ..)

/-- Everything that a session does is a history of its store. -/
theorem history_session (x : Session) :
    (∀ items withEnv, History x.store (x.build items withEnv).2.store) ∧
    (∀ {fuel name m config r x'}, x.instantiate fuel name m config = some (r, x') →
      History x.store x'.store) ∧
    (∀ name, History x.store (x.drop name).store) ∧ History x.store x.takeEvents.2.store := by
  refine ⟨fun items withEnv => ?_, fun {fuel name m config r x'} h => ?_, fun name => ?_, ?_⟩
  · have hitems := history_registerAll x.store {} items
    unfold Session.build
    split
    · next heq =>
      rw [heq] at hitems
      exact hitems
    · next heq =>
      rw [heq] at hitems
      exact hitems.tail (.forget ..)
  · obtain ⟨⟨r', s'⟩, hrun, heq⟩ := Option.map_eq_some_iff.mp h
    have hinstantiate := history_instantiate hrun
    cases r' with
    | error e =>
      cases heq
      exact hinstantiate
    | ok a =>
      cases heq
      exact (hinstantiate.tail (.note ..)).tail (.forget ..)
  · exact .tail (.single (.note ..)) (.forget ..)
  · exact .single (.note ..)

end Wasm.Growth
