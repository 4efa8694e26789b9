import Mathlib.Data.List.Induction
import Wasm.Proofs.Instantiation.Success

/-!
# What the segments leave behind

A byte or a slot holds what the last segment that covers it puts there, or what was there before
(`lastPlaced`).  So the objects after some segments are known place by place, whether the instance
comes into being or not, and whoever shares the memory or the table finds the same.
-/

namespace Wasm

namespace Instantiation

/-! ### Patches -/

section Patches

variable {α : Type}

/-- What a run of items that starts at an offset has at a place. -/
def placed (patch : Nat × List α) (i : Nat) : Option α :=
  if patch.1 ≤ i then patch.2[i - patch.1]? else none

/-- What the last of the patches that cover a place has there. -/
def lastPlaced (patches : List (Nat × List α)) (i : Nat) : Option α :=
  patches.reverse.findSome? fun patch => placed patch i

theorem lastPlaced_concat (patches : List (Nat × List α)) (patch : Nat × List α) (i : Nat) :
    lastPlaced (patches ++ [patch]) i = (placed patch i).or (lastPlaced patches i) := by
  rw [lastPlaced, List.reverse_append]
  show (List.findSome? _ (patch :: patches.reverse)) = _
  rw [List.findSome?_cons]
  cases placed patch i <;> rfl

theorem placed_nil (offset i : Nat) : placed (offset, ([] : List α)) i = none := by
  simp [placed]

theorem placed_cons (offset i : Nat) (a : α) (rest : List α) :
    placed (offset, a :: rest) i = if i = offset then some a else placed (offset + 1, rest) i := by
  simp only [placed]
  by_cases heq : i = offset
  · subst heq
    simp
  · rw [if_neg heq]
    by_cases hle : offset ≤ i
    · obtain ⟨k, hk⟩ := Nat.exists_eq_add_of_le hle
      obtain ⟨k, rfl⟩ : ∃ j, k = j + 1 := ⟨k - 1, by omega⟩
      rw [if_pos hle, if_pos (by omega), hk, Nat.add_sub_cancel_left, List.getElem?_cons_succ]
      congr 1
      omega
    · rw [if_neg hle, if_neg (by omega)]

end Patches

/-- The bytes of a memory after some have been put there. -/
theorem byte_put (m : Memory) (offset : Nat) (data : List UInt8)
    (h : offset + data.length ≤ m.bytes.size) (i : Nat) :
    (m.put offset data).byte i = (placed (offset, data) i).getD (m.byte i) := by
  induction data generalizing m offset with
  | nil => rw [placed_nil]; rfl
  | cons x rest ih =>
    rw [List.length_cons] at h
    have hsize : ({ m with bytes := m.bytes.set! offset x } : Memory).bytes.size = m.bytes.size :=
      Array.size_setIfInBounds ..
    have hput : m.put offset (x :: rest) =
      ({ m with bytes := m.bytes.set! offset x } : Memory).put (offset + 1) rest := rfl
    rw [hput, ih _ _ (by rw [hsize]; omega), placed_cons]
    have hset : ({ m with bytes := m.bytes.set! offset x } : Memory).byte i =
        if i = offset then x else m.byte i := by
      have hlt : offset < m.bytes.data.size := by
        have : offset < m.bytes.size := by omega
        exact this
      show (m.bytes.data.setIfInBounds offset x)[i]! = if i = offset then x else m.bytes.data[i]!
      rw [getElem!_def, getElem!_def, Array.getElem?_setIfInBounds]
      by_cases heq : i = offset
      · rw [if_pos heq, if_pos heq.symm, if_pos hlt]
      · rw [if_neg heq, if_neg (Ne.symm heq)]
    rw [hset]
    by_cases heq : i = offset
    · subst heq
      rw [if_pos rfl, if_pos rfl, placed, if_neg (by simp)]
      rfl
    · rw [if_neg heq, if_neg heq]

/-- The slots of a table after functions have been put there. -/
theorem getElem?_put (t : Table) (offset : Nat) (funcs : List FuncRef)
    (h : offset + funcs.length ≤ t.slots.size) (i : Nat) :
    (t.put offset funcs).slots[i]? = (placed (offset, funcs.map some) i).or t.slots[i]? := by
  induction funcs generalizing t offset with
  | nil => rw [List.map_nil, placed_nil]; rfl
  | cons f rest ih =>
    rw [List.length_cons] at h
    rw [Table.put, ih _ _ (by rw [Array.size_setIfInBounds]; omega), List.map_cons, placed_cons,
      Array.getElem?_setIfInBounds]
    by_cases heq : i = offset
    · subst heq
      rw [if_pos rfl, if_pos rfl, placed, if_neg (by simp), if_pos (by omega)]
      rfl
    · rw [if_neg heq, if_neg (Ne.symm heq)]

namespace Linkage

variable {l : Linkage} {o : Objects} {new : List Cell}

/-- The bytes that a segment puts into the memory. -/
def dataPatch? (l : Linkage) : Segment → Option (Nat × List UInt8)
  | .data d => (l.offset? (.data d)).map fun n => (n.toNat, d.bytes)
  | .element _ => none

/-- The functions that a segment puts into the table. -/
def slotPatch? (l : Linkage) : Segment → Option (Nat × List (Option FuncRef))
  | .data _ => none
  | .element e => (l.offset? (.element e)).map fun n => (n.toNat, e.funcs.map l.funcRef?)

/-- The memory holds what the last of the segments puts there, and else what was there. -/
structure MemoryAfter (l : Linkage) (segs : List Segment) (mem mem' : Memory) : Prop where
  limits : mem'.limits = mem.limits
  maxPages : mem'.maxPages = mem.maxPages
  size : mem'.bytes.size = mem.bytes.size
  byte : ∀ i, mem'.byte i = (lastPlaced (segs.filterMap l.dataPatch?) i).getD (mem.byte i)

/-- The table holds what the last of the segments puts there, and else what was there. -/
structure TableAfter (l : Linkage) (segs : List Segment) (t t' : Table) : Prop where
  type : t'.type = t.type
  size : t'.slots.size = t.slots.size
  slot : ∀ i, t'.slots[i]? = (lastPlaced (segs.filterMap l.slotPatch?) i).or t.slots[i]?

/-- Exactly the given segments have been written. -/
structure Written (l : Linkage) (segs : List Segment) (o : Objects) : Prop where
  /-- No global that was there has changed. -/
  globals : ∀ {a : Address} {c : Cell}, l.store.objects.globals[a]? = some c →
    o.globals[a]? = some c
  /-- No other memory has changed. -/
  memories : ∀ {a : Address}, l.memoryAt? ≠ some a → o.memories[a]? = l.store.objects.memories[a]?
  memory : ∀ {a mem}, l.memory? = some (a, mem) →
    ∃ mem', o.memories[a]? = some mem' ∧ l.MemoryAfter segs mem mem'
  /-- No other table has changed. -/
  tables : ∀ {a : Address}, l.tableAt? ≠ some a → o.tables[a]? = l.store.objects.tables[a]?
  table : ∀ {a t}, l.table? = some (a, t) → l.module.data.length ≤ segs.length →
    ∃ t', o.tables[a]? = some t' ∧ l.TableAfter segs t t'
  /-- No table at all has changed before all data have been written. -/
  untouched : segs.length < l.module.data.length → o.tables = l.store.objects.tables

/-- The segment fits, and the functions in it are there. -/
def Whole (l : Linkage) (seg : Segment) : Prop :=
  l.Fits seg ∧ ∀ {e}, seg = .element e → ∀ x ∈ e.funcs, ∃ f, l.funcRef? x = some f

/-! ### One more segment -/

theorem memoryAfter_nil (mem : Memory) : l.MemoryAfter [] mem mem :=
  ⟨rfl, rfl, rfl, fun _ => rfl⟩

theorem tableAfter_nil (t : Table) : l.TableAfter [] t t :=
  ⟨rfl, rfl, fun _ => rfl⟩

theorem MemoryAfter.data {segs : List Segment} {mem mem' : Memory} {d : Data} {n : UInt32}
    (h : l.MemoryAfter segs mem mem') (hn : l.offset? (.data d) = some n)
    (hfits : n.toNat + d.bytes.length ≤ mem.bytes.size) :
    l.MemoryAfter (segs ++ [.data d]) mem (mem'.put n.toNat d.bytes) := by
  refine ⟨h.limits, h.maxPages, (Memory.size_setBytes ..).trans h.size, fun i => ?_⟩
  have hpatch : l.dataPatch? (.data d) = some (n.toNat, d.bytes) := by rw [dataPatch?, hn]; rfl
  rw [byte_put _ _ _ (by rw [h.size]; exact hfits), h.byte, List.filterMap_append,
    List.filterMap_cons, hpatch, List.filterMap_nil, lastPlaced_concat]
  cases placed (n.toNat, d.bytes) i <;> rfl

theorem MemoryAfter.element {segs : List Segment} {mem mem' : Memory} {e : Element}
    (h : l.MemoryAfter segs mem mem') : l.MemoryAfter (segs ++ [.element e]) mem mem' := by
  refine ⟨h.limits, h.maxPages, h.size, fun i => ?_⟩
  have hnil : [Segment.element e].filterMap l.dataPatch? = [] := rfl
  rw [h.byte, List.filterMap_append, hnil, List.append_nil]

theorem type_put (t : Table) (offset : Nat) (funcs : List FuncRef) :
    (t.put offset funcs).type = t.type := by
  induction funcs generalizing t offset with
  | nil => rfl
  | cons f rest ih => rw [Table.put, ih]

theorem map_some_filterMap {α β : Type} {f : α → Option β} {items : List α}
    (h : ∀ a ∈ items, ∃ b, f a = some b) : (items.filterMap f).map some = items.map f := by
  induction items with
  | nil => rfl
  | cons a rest ih =>
    obtain ⟨b, hb⟩ := h a (List.mem_cons_self ..)
    rw [List.filterMap_cons, hb, List.map_cons, List.map_cons, hb,
      ih fun a ha => h a (List.mem_cons_of_mem _ ha)]

theorem TableAfter.element {segs : List Segment} {t t' : Table} {e : Element} {n : UInt32}
    (h : l.TableAfter segs t t') (hn : l.offset? (.element e) = some n)
    (hfits : n.toNat + e.funcs.length ≤ t.size.toNat)
    (hfuncs : ∀ x ∈ e.funcs, ∃ f, l.funcRef? x = some f) :
    l.TableAfter (segs ++ [.element e]) t (t'.put n.toNat (e.funcs.filterMap l.funcRef?)) := by
  refine ⟨(type_put ..).trans h.type, (Table.size_put ..).trans h.size, fun i => ?_⟩
  have hmap := map_some_filterMap hfuncs
  have hlength : (e.funcs.filterMap l.funcRef?).length = e.funcs.length := by
    rw [← List.length_map, hmap, List.length_map]
  have hsize : t.size.toNat ≤ t'.slots.size := by
    rw [h.size, Table.size, UInt32.toNat_ofNat']
    exact Nat.mod_le ..
  have hpatch : l.slotPatch? (.element e) = some (n.toNat, e.funcs.map l.funcRef?) := by
    rw [slotPatch?, hn]
    rfl
  rw [getElem?_put _ _ _ (by rw [hlength]; omega), hmap, h.slot, List.filterMap_append,
    List.filterMap_cons, hpatch, List.filterMap_nil, lastPlaced_concat, Option.or_assoc]

theorem TableAfter.data {segs : List Segment} {t t' : Table} {d : Data}
    (h : l.TableAfter segs t t') : l.TableAfter (segs ++ [.data d]) t t' := by
  refine ⟨h.type, h.size, fun i => ?_⟩
  have hnil : [Segment.data d].filterMap l.slotPatch? = [] := rfl
  rw [h.slot, List.filterMap_append, hnil, List.append_nil]

/-! ### All segments -/

theorem write_globals (seg : Segment) : (l.write o seg).globals = o.globals := by
  cases seg with
  | data d => exact (writeData_frame o d).2.1
  | element e => exact (writeElement_frame o e).2

theorem foldl_globals (segs : List Segment) : (segs.foldl l.write o).globals = o.globals := by
  induction segs generalizing o with
  | nil => rfl
  | cons seg rest ih => rw [List.foldl_cons, ih, write_globals]

/-- Where each segment changes one entry of the memories or of the tables, or none, that entry is in
the end what all of them have made of it, and the others are as they were. -/
theorem foldl_entry {α : Type} {view : Objects → Array α} {xs : Array α}
    {place? : Option (Address × α)} {After : List Segment → α → α → Prop} {segs : List Segment}
    (ho : view o = xs) (hplace : ∀ {a x}, place? = some (a, x) → xs[a]? = some x)
    (hnil : ∀ x, After [] x x)
    (hwrite : ∀ seg ∈ segs, ∀ o before,
      view (l.write o seg) = view o ∧
          (∀ {x x'}, After before x x' → After (before ++ [seg]) x x') ∨
        ∃ a x g, place? = some (a, x) ∧ view (l.write o seg) = (view o).modify a g ∧
          ∀ {x'}, After before x x' → After (before ++ [seg]) x (g x')) :
    (∀ {a x}, place? = some (a, x) →
      ∃ x', (view (segs.foldl l.write o))[a]? = some x' ∧ After segs x x') ∧
    ∀ {a}, (∀ x, place? ≠ some (a, x)) → (view (segs.foldl l.write o))[a]? = xs[a]? := by
  induction segs using List.reverseRecOn with
  | nil =>
    refine ⟨fun {a x} hx => ⟨x, ?_, hnil x⟩, fun _ => by rw [List.foldl_nil, ho]⟩
    rw [List.foldl_nil, ho]
    exact hplace hx
  | append_singleton segs seg ih =>
    obtain ⟨hafter, hothers⟩ := ih fun seg hseg => hwrite seg (List.mem_append_left _ hseg)
    rw [List.foldl_append, List.foldl_cons, List.foldl_nil]
    rcases hwrite seg (List.mem_append_right _ (List.mem_cons_self ..)) (segs.foldl l.write o) segs
      with ⟨hview, hkept⟩ | ⟨a₀, x₀, g, hx₀, hview, hchanged⟩
    · rw [hview]
      refine ⟨fun {a x} hx => ?_, hothers⟩
      obtain ⟨x', hx', hsegs⟩ := hafter hx
      exact ⟨x', hx', hkept hsegs⟩
    · rw [hview]
      refine ⟨fun {a x} hx => ?_, fun {a} ha => ?_⟩
      · cases hx₀.symm.trans hx
        obtain ⟨x', hx', hsegs⟩ := hafter hx
        refine ⟨g x', ?_, hchanged hsegs⟩
        rw [Array.getElem?_modify, if_pos rfl, hx']
        rfl
      · have hne : a₀ ≠ a := fun heq => ha x₀ (heq ▸ hx₀)
        rw [Array.getElem?_modify, if_neg hne]
        exact hothers ha

theorem foldl_memories {segs : List Segment} (hwhole : ∀ seg ∈ segs, l.Whole seg)
    (ho : o.memories = l.memories) :
    (∀ {a mem}, l.memory? = some (a, mem) →
      ∃ mem', (segs.foldl l.write o).memories[a]? = some mem' ∧ l.MemoryAfter segs mem mem') ∧
    ∀ {a : Address}, l.memoryAt? ≠ some a →
      (segs.foldl l.write o).memories[a]? = l.memories[a]? := by
  have hwrite (seg : Segment) (hseg : seg ∈ segs) (o : Objects) (before : List Segment) :
      (l.write o seg).memories = o.memories ∧ (∀ {mem mem'}, l.MemoryAfter before mem mem' →
          l.MemoryAfter (before ++ [seg]) mem mem') ∨
        ∃ a mem g, l.memory? = some (a, mem) ∧
          (l.write o seg).memories = o.memories.modify a g ∧
          ∀ {mem'}, l.MemoryAfter before mem mem' →
            l.MemoryAfter (before ++ [seg]) mem (g mem') := by
    cases seg with
    | element e => exact .inl ⟨(writeElement_frame o e).1, MemoryAfter.element⟩
    | data d =>
      obtain ⟨⟨n, room, hn, hroom, hfits⟩, -⟩ := hwhole (.data d) hseg
      obtain ⟨⟨a, mem⟩, hmem, rfl⟩ := Option.map_eq_some_iff.mp hroom
      exact .inr ⟨a, mem, (·.put n.toNat d.bytes), hmem,
        congrArg Objects.memories (writeData_eq hmem hn), fun hafter => hafter.data hn hfits⟩
  obtain ⟨hmemory, hothers⟩ := foldl_entry ho (fun hmem => (memory?_eq_some_iff.mp hmem).2)
    memoryAfter_nil hwrite
  exact ⟨hmemory, fun ha => hothers fun mem hmem => ha (memory?_eq_some_iff.mp hmem).1⟩

theorem foldl_tables {segs : List Segment} (hwhole : ∀ seg ∈ segs, l.Whole seg)
    (ho : o.tables = l.tables) :
    (∀ {a t}, l.table? = some (a, t) →
      ∃ t', (segs.foldl l.write o).tables[a]? = some t' ∧ l.TableAfter segs t t') ∧
    ∀ {a : Address}, l.tableAt? ≠ some a →
      (segs.foldl l.write o).tables[a]? = l.tables[a]? := by
  have hwrite (seg : Segment) (hseg : seg ∈ segs) (o : Objects) (before : List Segment) :
      (l.write o seg).tables = o.tables ∧ (∀ {t t'}, l.TableAfter before t t' →
          l.TableAfter (before ++ [seg]) t t') ∨
        ∃ a t g, l.table? = some (a, t) ∧ (l.write o seg).tables = o.tables.modify a g ∧
          ∀ {t'}, l.TableAfter before t t' → l.TableAfter (before ++ [seg]) t (g t') := by
    cases seg with
    | data d => exact .inl ⟨(writeData_frame o d).1, TableAfter.data⟩
    | element e =>
      obtain ⟨⟨n, room, hn, hroom, hfits⟩, hfuncs⟩ := hwhole (.element e) hseg
      obtain ⟨⟨a, t⟩, ht, rfl⟩ := Option.map_eq_some_iff.mp hroom
      exact .inr ⟨a, t, (·.put n.toNat (e.funcs.filterMap l.funcRef?)), ht,
        congrArg Objects.tables (writeElement_eq ht hn),
        fun hafter => hafter.element hn hfits (hfuncs rfl)⟩
  obtain ⟨htable, hothers⟩ := foldl_entry ho (fun ht => (table?_eq_some_iff.mp ht).2)
    tableAfter_nil hwrite
  exact ⟨htable, fun ha => hothers fun t ht => ha (table?_eq_some_iff.mp ht).1⟩

/-- Data leave all tables as they are. -/
theorem foldl_data (data : List Data) :
    ((data.map Segment.data).foldl l.write o).tables = o.tables := by
  induction data generalizing o with
  | nil => rfl
  | cons d rest ih =>
    rw [List.map_cons, List.foldl_cons, ih]
    exact (writeData_frame o d).1

theorem memories_getElem? {a : Address} (h : l.memoryAt? ≠ some a) :
    l.memories[a]? = l.store.objects.memories[a]? := by
  unfold memories memoryAt? at *
  cases hmemories : l.module.memories with
  | nil => rfl
  | cons limits rest =>
    rw [hmemories] at h
    rw [Array.getElem?_push, if_neg fun heq => h (congrArg some heq.symm)]

theorem tables_getElem? {a : Address} (h : l.tableAt? ≠ some a) :
    l.tables[a]? = l.store.objects.tables[a]? := by
  unfold tables tableAt? at *
  cases htables : l.module.tables with
  | nil => rfl
  | cons type rest =>
    rw [htables] at h
    rw [Array.getElem?_push, if_neg fun heq => h (congrArg some heq.symm)]

theorem getElem?_append_of_some {α : Type} {xs ys : Array α} {i : Nat} {a : α}
    (h : xs[i]? = some a) : (xs ++ ys)[i]? = some a := by
  rw [Array.getElem?_append_left (Array.getElem?_eq_some_iff.mp h).1]
  exact h

/-- The first segments, each as a whole. -/
theorem written_foldl {segs : List Segment} (hfirst : segs <+: l.module.segments)
    (hwhole : ∀ seg ∈ segs, l.Whole seg) :
    l.Written segs (segs.foldl l.write (l.blank new segs.length)) := by
  obtain ⟨hmemory, hmemories⟩ := foldl_memories (o := l.blank new segs.length) hwhole rfl
  have huntouched (hlt : segs.length < l.module.data.length) :
      (segs.foldl l.write (l.blank new segs.length)).tables = l.store.objects.tables := by
    have hdata : segs <+: l.module.data.map Segment.data :=
      List.prefix_of_prefix_length_le hfirst (List.prefix_append ..)
        (by rw [List.length_map]; exact Nat.le_of_lt hlt)
    obtain ⟨data, hdata⟩ : ∃ data : List Data, segs = data.map Segment.data :=
      ⟨l.module.data.take segs.length, by
        rw [List.map_take]
        exact List.prefix_iff_eq_take.mp hdata⟩
    have htables : (l.blank new segs.length).tables = l.store.objects.tables := if_pos hlt
    rw [← htables]
    generalize l.blank new segs.length = o
    rw [hdata]
    exact foldl_data data
  have htables (hle : l.module.data.length ≤ segs.length) :
      (l.blank new segs.length).tables = l.tables := if_neg (Nat.not_lt.mpr hle)
  refine ⟨fun {a c} hc => ?_, fun {a} ha => (hmemories ha).trans (memories_getElem? ha), hmemory,
    fun {a} ha => ?_, fun {a t} ht hle => (foldl_tables hwhole (htables hle)).1 ht, huntouched⟩
  · rw [foldl_globals]
    exact getElem?_append_of_some hc
  · rcases Nat.lt_or_ge segs.length l.module.data.length with hlt | hle
    · rw [huntouched hlt]
    · exact ((foldl_tables hwhole (htables hle)).2 ha).trans (tables_getElem? ha)

/-- A segment that fits is whole in a valid module. -/
theorem whole_of_fits (hresolved : l.Resolved) (hchecked : Checked l.module) {seg : Segment}
    (hseg : seg ∈ l.module.segments) (hfits : l.Fits seg) : l.Whole seg := by
  refine ⟨hfits, fun {e} he x hx => ?_⟩
  subst he
  rw [Module.segments, List.mem_append] at hseg
  rcases hseg with hdata | helement
  · obtain ⟨d, -, hd⟩ := List.mem_map.mp hdata
    cases hd
  · obtain ⟨e', he', heq⟩ := List.mem_map.mp helement
    cases heq
    exact hresolved.exists_funcRef hchecked.passed ((hchecked.elements he').2.2 x hx)

/-- No memory and no table is another one, and no global that was there has changed. -/
def Untouched (o o' : Objects) : Prop :=
  o'.memories = o.memories ∧ o'.tables = o.tables ∧
    ∀ {a : Address} {c : Cell}, o.globals[a]? = some c → o'.globals[a]? = some c

/-- Up to the start function, an instantiation writes the first segments, each as a whole and in
their order, and no part of another one: all of them if it succeeds, and else those before the first
that does not fit.  If it fails before that, in validation, for an import or for its memory, it
changes nothing that was there. -/
theorem segments_written_in_order {input : List UInt8}
    (hdecode : Binary.decode input = .ok l.module) :
    (∀ fuel, l.store.instantiate fuel l.externals l.module l.config =
      Store.afterLink fuel l.module l.link) ∧
    (Validation.module l.module ≠ .ok () ∨ ¬ l.Resolved ∨ ¬ l.Affordable →
      (∃ e, l.link.1 = .error e) ∧ Untouched l.store.objects l.link.2.objects) ∧
    (Validation.module l.module = .ok () → l.Resolved → l.Affordable →
      ∃ k ≤ l.module.segments.length,
        l.Written (l.module.segments.take k) l.link.2.objects ∧
        (∀ seg ∈ l.module.segments.take k, l.Fits seg) ∧
        (∀ a, l.link.1 = .ok a → k = l.module.segments.length) ∧
        ∀ e, l.link.1 = .error e → ∃ seg, l.module.segments[k]? = some seg ∧ ¬ l.Fits seg ∧
          e.code = seg.code) := by
  have hread := Binary.constantsRead_of_decode hdecode
  have hsame (o : Objects) : Untouched o o := ⟨rfl, rfl, fun hc => hc⟩
  refine ⟨fun fuel => Store.instantiate_eq .., fun h => ?_, fun hvalid hresolved haffordable => ?_⟩
  · cases hvalid : Validation.module l.module with
    | error e =>
      rw [link_of_invalid hvalid]
      exact ⟨⟨e, rfl⟩, hsame _⟩
    | ok _ =>
      by_cases hresolved : l.Resolved
      · have haffordable : ¬ l.Affordable := by
          rcases h with h | h | h
          · exact absurd hvalid h
          · exact absurd hresolved h
          · exact h
        obtain ⟨e, new, hrun, -⟩ :=
          setup_unaffordable hresolved (checked_of_module hread hvalid) haffordable
        rw [link_of_resolved hvalid hresolved, hrun]
        exact ⟨⟨e, rfl⟩, rfl, rfl, getElem?_append_of_some⟩
      · obtain ⟨e, hlink, -⟩ := link_of_unresolved hvalid hresolved
        rw [hlink]
        exact ⟨⟨e, rfl⟩, hsame _⟩
  · have hchecked := checked_of_module hread hvalid
    have hwhole {segs : List Segment} (hfirst : segs <+: l.module.segments)
        (hfits : ∀ seg ∈ segs, l.Fits seg) : ∀ seg ∈ segs, l.Whole seg := fun seg hseg =>
      whole_of_fits hresolved hchecked (hfirst.subset hseg) (hfits seg hseg)
    obtain ⟨cells, new, addresses, -, -, ⟨hfits, hrun⟩ |
      ⟨before, seg, after, hsplit, hbefore, hmiss, e, hrun, hcode⟩⟩ :=
      setup_affordable hresolved hchecked haffordable
    · rw [link_of_resolved hvalid hresolved, hrun]
      refine ⟨_, Nat.le_refl _, ?_, ?_, fun _ _ => rfl, nofun⟩
      · rw [List.take_length]
        exact written_foldl List.prefix_rfl (hwhole List.prefix_rfl hfits)
      · rw [List.take_length]
        exact hfits
    · have hfirst : before <+: l.module.segments := by
        rw [hsplit]
        exact List.prefix_append ..
      have htake : l.module.segments.take before.length = before := by
        rw [hsplit, List.take_left]
      rw [link_of_resolved hvalid hresolved, hrun]
      refine ⟨before.length, hfirst.length_le, ?_, ?_, nofun, fun e' he' => ⟨seg, ?_, hmiss, ?_⟩⟩
      · rw [htake]
        exact written_foldl hfirst (hwhole hfirst hbefore)
      · rw [htake]
        exact hbefore
      · rw [hsplit, List.getElem?_append_right (Nat.le_refl _), Nat.sub_self]
        rfl
      · cases he'
        exact hcode

/-- With the global at 3 the second segment overruns the table: slot 2 has been written by the first
one, and slot 3 is still empty. -/
theorem spread_overruns : (∃ e, (spread 3).link.1 = .error e ∧ e.code = Code.tableOutOfBounds) ∧
    ∃ t, (spread 3).link.2.objects.tables[0]? = some t ∧
      t.slots[2]? = some (some (.owned ⟨[], [.i32]⟩ 0 0)) ∧ t.slots[3]? = some none := by
  have hvalid : Validation.module spreadModule = .ok () := rfl
  obtain ⟨-, -, hwritten⟩ := @segments_written_in_order (spread 3) _ decode_spread
  obtain ⟨k, hk, hwritten, hfits, hok, herror⟩ := hwritten hvalid (resolved_spread 3) nofun
  have hmiss : ¬ (spread 3).Fits (.element ⟨0, [.plain .globalGet (.index 0)], [0, 0]⟩) := by
    rintro ⟨n, room, hn, hroom, hle⟩
    obtain rfl : n = 3 := (Option.some.inj hn).symm
    obtain rfl : room = 4 := (Option.some.inj hroom).symm
    exact absurd hle (by decide)
  match k, hk with
  | 0, _ =>
    have hfirst : (spread 3).Fits (.element ⟨0, [.plain (.const .i32) (.value (.i32 2))], [0]⟩) :=
      ⟨2, 4, rfl, rfl, by decide⟩
    cases hlink : (spread 3).link.1 with
    | ok a => cases hok a hlink
    | error e =>
      obtain ⟨seg, hseg, hnot, -⟩ := herror e hlink
      cases hseg
      exact absurd hfirst hnot
  | 1, _ =>
    obtain ⟨t', ht', hafter⟩ := hwritten.table (a := 0) (t := .allocate ⟨⟨4, none⟩⟩) rfl (by decide)
    refine ⟨?_, t', ht', hafter.slot 2, hafter.slot 3⟩
    cases hlink : (spread 3).link.1 with
    | ok a => cases hok a hlink
    | error e =>
      obtain ⟨seg, hseg, -, hcode⟩ := herror e hlink
      cases hseg
      exact ⟨e, rfl, hcode⟩
  | 2, _ => exact absurd (hfits _ (.tail _ (.head _))) hmiss

end Linkage

end Instantiation

end Wasm
