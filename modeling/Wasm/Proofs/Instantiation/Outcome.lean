import Wasm.Proofs.Instantiation.Segments

/-!
# The outcome of setting up

Everything between the imports and the start function, put together.
-/

namespace Wasm

/-! ### Sizes -/

theorem Memory.size_setBytes (bytes : ByteArray) (offset : Nat) (data : List UInt8) :
    (setBytes bytes offset data).size = bytes.size := by
  induction data generalizing bytes offset with
  | nil => rfl
  | cons x rest ih =>
    rw [setBytes, ih]
    exact Array.size_setIfInBounds ..

theorem Table.size_put (t : Table) (offset : Nat) (funcs : List FuncRef) :
    (t.put offset funcs).slots.size = t.slots.size := by
  induction funcs generalizing t offset with
  | nil => rfl
  | cons f rest ih =>
    rw [put, ih]
    exact Array.size_setIfInBounds ..

namespace Instantiation.Linkage

variable {l : Linkage} {o : Objects} {cells new : List Cell} {addresses : Array Address}

/-- The objects before the first segment is written.  The table of the module comes after its data,
so it is not there yet if one of these does not fit. -/
def blank (l : Linkage) (new : List Cell) (written : Nat) : Objects :=
  ⟨l.memories, if written < l.module.data.length then l.store.objects.tables else l.tables,
    l.store.objects.globals ++ new.toArray⟩

/-- The bindings of the instance. -/
def ready (l : Linkage) (addresses : Array Address) : Bindings :=
  { Instantiate.functions { l.bound with globals := addresses, memory := l.memoryAt? } with
    table := l.tableAt? }

/-- The memory is there, of its size. -/
def HasMemory (l : Linkage) (o : Objects) : Prop :=
  ∀ {a mem}, l.memory? = some (a, mem) →
    ∃ mem', o.memories[a]? = some mem' ∧ mem'.bytes.size = mem.bytes.size

/-- The table is there, of its size. -/
def HasTable (l : Linkage) (o : Objects) : Prop :=
  ∀ {a t}, l.table? = some (a, t) →
    ∃ t', o.tables[a]? = some t' ∧ t'.slots.size = t.slots.size

theorem HasMemory.writeData (h : l.HasMemory o) (d : Data) : l.HasMemory (l.writeData o d) := by
  intro a mem hmem
  obtain ⟨mem₁, hmem₁, hsize⟩ := h hmem
  unfold Linkage.writeData
  split
  · next a' mem' n _ _ =>
    show ∃ mem₂, (o.memories.modify a' _)[a]? = some mem₂ ∧ _
    rw [Array.getElem?_modify, hmem₁]
    split
    · exact ⟨_, rfl, (Memory.size_setBytes ..).trans hsize⟩
    · exact ⟨_, rfl, hsize⟩
  · exact ⟨mem₁, hmem₁, hsize⟩

theorem HasTable.writeElement (h : l.HasTable o) (e : Element) :
    l.HasTable (l.writeElement o e) := by
  intro a t ht
  obtain ⟨t₁, ht₁, hsize⟩ := h ht
  unfold Linkage.writeElement
  split
  · next a' t' n _ _ =>
    show ∃ t₂, (o.tables.modify a' _)[a]? = some t₂ ∧ _
    rw [Array.getElem?_modify, ht₁]
    split
    · exact ⟨_, rfl, (Table.size_put ..).trans hsize⟩
    · exact ⟨_, rfl, hsize⟩
  · exact ⟨t₁, ht₁, hsize⟩

/-- Data are written to memories alone. -/
theorem writeData_frame (o : Objects) (d : Data) :
    (l.writeData o d).tables = o.tables ∧ (l.writeData o d).globals = o.globals ∧
      ∀ tables, l.writeData { o with tables := tables } d =
        { l.writeData o d with tables := tables } := by
  unfold writeData
  split
  · exact ⟨rfl, rfl, fun _ => rfl⟩
  · exact ⟨rfl, rfl, fun _ => rfl⟩

/-- Elements are written to tables alone. -/
theorem writeElement_frame (o : Objects) (e : Element) :
    (l.writeElement o e).memories = o.memories ∧ (l.writeElement o e).globals = o.globals := by
  unfold writeElement
  split
  · exact ⟨rfl, rfl⟩
  · exact ⟨rfl, rfl⟩

theorem foldl_writeData_tables (data : List Data) (o : Objects) (tables : Array Table) :
    data.foldl l.writeData { o with tables := tables } =
      { data.foldl l.writeData o with tables := tables } := by
  induction data generalizing o with
  | nil => rfl
  | cons d rest ih =>
    obtain ⟨-, -, htables⟩ := writeData_frame (l := l) o d
    rw [List.foldl_cons, List.foldl_cons, htables, ih]

theorem foldl_segments (data : List Data) (elements : List Element) (o : Objects) :
    (data.map Segment.data ++ elements.map Segment.element).foldl l.write o =
      elements.foldl l.writeElement (data.foldl l.writeData o) := by
  rw [List.foldl_append, List.foldl_map, List.foldl_map]
  rfl

theorem hasMemory_blank (written : Nat) : l.HasMemory (l.blank new written) :=
  fun {_ mem} hmem => ⟨mem, (memory?_eq_some_iff.mp hmem).2, rfl⟩

theorem hasTable_blank {o : Objects} (htables : o.tables = l.tables) : l.HasTable o :=
  fun {_ t} ht => ⟨t, by rw [htables]; exact (table?_eq_some_iff.mp ht).2, rfl⟩

/-- Data are written up to the first that does not fit. -/
theorem data_cases {b : Bindings} (hresolved : l.Resolved) (hchecked : Checked l.module)
    (hb : b.memory = l.memoryAt?) (hfilled : l.Filled b o cells) (hmemory : l.HasMemory o) :
    (∀ d ∈ l.module.data, l.Fits (.data d)) ∧
        (l.Filled b (l.module.data.foldl l.writeData o) cells ∧
          l.HasMemory (l.module.data.foldl l.writeData o) ∧
          (l.module.data.foldl l.writeData o).tables = o.tables) ∧
        Instantiate.each (Instantiate.dataSegment b) 0 l.module.data o =
          .ok () (l.module.data.foldl l.writeData o) ∨
      ∃ before d after, l.module.data = before ++ d :: after ∧ (∀ d ∈ before, l.Fits (.data d)) ∧
        ¬ l.Fits (.data d) ∧ ∃ e, Instantiate.each (Instantiate.dataSegment b) 0 l.module.data o =
            .error e (before.foldl l.writeData o) ∧ e.code = Code.memoryOutOfBounds := by
  refine @each_cases _ o (Instantiate.dataSegment b) l.writeData
    (fun o' => l.Filled b o' cells ∧ l.HasMemory o' ∧ o'.tables = o.tables) _ _ _
    (fun {index d o'} hd ⟨hfilled, hmemory, htables⟩ => ?_) 0 ⟨hfilled, hmemory, rfl⟩
  obtain ⟨hcount, haccepted⟩ := hchecked.data hd
  obtain ⟨a, mem, hmem⟩ := hresolved.exists_memory hcount
  obtain ⟨mem', hmem', hsize⟩ := hmemory hmem
  obtain ⟨htables', hglobals, -⟩ := writeData_frame (l := l) o' d
  have ha : b.memory = some a := hb.trans (memory?_eq_some_iff.mp hmem).1
  rcases dataSegment_cases hfilled haccepted hmem ha hmem' hsize with ⟨hfits, hrun⟩ | hmiss
  · exact .inl ⟨hfits, hrun, hfilled.mono rfl hglobals, hmemory.writeData d, htables'.trans htables⟩
  · exact .inr hmiss

/-- Elements are written up to the first that does not fit. -/
theorem element_cases {b : Bindings} (hresolved : l.Resolved) (hchecked : Checked l.module)
    (hb : b.table = l.tableAt?) (hrefs : ∀ x, b.funcRef? x = l.funcRef? x)
    (hfilled : l.Filled b o cells) (htable : l.HasTable o) :
    (∀ e ∈ l.module.elements, l.Fits (.element e)) ∧
        (l.Filled b (l.module.elements.foldl l.writeElement o) cells ∧
          l.HasTable (l.module.elements.foldl l.writeElement o)) ∧
        Instantiate.each (Instantiate.elementSegment b) 0 l.module.elements o =
          .ok () (l.module.elements.foldl l.writeElement o) ∨
      ∃ before e after, l.module.elements = before ++ e :: after ∧
        (∀ e ∈ before, l.Fits (.element e)) ∧ ¬ l.Fits (.element e) ∧
        ∃ err, Instantiate.each (Instantiate.elementSegment b) 0 l.module.elements o =
            .error err (before.foldl l.writeElement o) ∧ err.code = Code.tableOutOfBounds := by
  refine @each_cases _ o (Instantiate.elementSegment b) l.writeElement
    (fun o' => l.Filled b o' cells ∧ l.HasTable o') _ _ _
    (fun {index e o'} he ⟨hfilled, htable⟩ => ?_) 0 ⟨hfilled, htable⟩
  obtain ⟨hcount, haccepted, hfuncs⟩ := hchecked.elements he
  obtain ⟨a, t, ht⟩ := hresolved.exists_table hcount
  obtain ⟨t', ht', hsize⟩ := htable ht
  obtain ⟨-, hglobals⟩ := writeElement_frame (l := l) o' e
  have ha : b.table = some a := hb.trans (table?_eq_some_iff.mp ht).1
  have hexists (x : UInt32) (hx : x ∈ e.funcs) : ∃ f, l.funcRef? x = some f :=
    hresolved.exists_funcRef hchecked.passed (hfuncs x hx)
  rcases elementSegment_cases hfilled haccepted ht ha ht' hsize hrefs hexists with
    ⟨hfits, hrun⟩ | hmiss
  · exact .inl ⟨hfits, hrun, hfilled.mono rfl hglobals, htable.writeElement e⟩
  · exact .inr hmiss

/-- The globals of the module are created, and then its memory if it is affordable. -/
theorem globals_of_bound (hresolved : l.Resolved) (hchecked : Checked l.module) :
    ∃ cells new addresses, cells = l.importedCells ++ new ∧
      Instantiate.globals l.bound 0 l.module.globals l.store.objects =
        .ok { l.bound with globals := addresses }
          { l.store.objects with globals := l.store.objects.globals ++ new.toArray } ∧
      ∀ {b : Bindings} {o : Objects}, b.globals = addresses →
        o.globals = l.store.objects.globals ++ new.toArray → l.Filled b o cells := by
  obtain ⟨himported, htypes⟩ := hresolved.cells_imported
  have hlength : l.importedCells.length = l.module.importCount .global := by
    rw [← Module.length_importedGlobals, ← htypes, List.length_map]
  have hall : l.module.globalTypes =
      l.importedCells.map Cell.type ++ l.module.globals.map Global.type := by
    rw [htypes]
    rfl
  obtain ⟨addresses, new, hinitial, htypes', hcells, hrun⟩ :=
    @globals_eq _ _ _ _ 0 _ himported hall fun hg => by
      rw [hlength]
      exact hchecked.globals hg
  refine ⟨_, new, addresses, rfl, hrun, fun {b o} hb ho => ⟨hinitial, ?_, ?_⟩⟩
  · rw [hb]
    exact hcells.mono fun hc => by rw [ho]; exact hc
  · rw [← Module.length_globalTypes, htypes', List.length_map]

/-- A module whose memory is too large fails when this is to be created. -/
theorem setup_unaffordable (hresolved : l.Resolved) (hchecked : Checked l.module)
    (haffordable : ¬ l.Affordable) :
    ∃ e new, Instantiate.setup l.bound l.store.objects =
        .error e { l.store.objects with globals := l.store.objects.globals ++ new } ∧
      e.code = Code.resourceLimit := by
  obtain ⟨cells, new, addresses, -, hglobals, -⟩ := globals_of_bound hresolved hchecked
  have hmodule : l.bound.module = l.module := by rw [bound_eq]
  have hconfig : l.bound.config = l.config := by rw [bound_eq]
  obtain ⟨e, hmemory, hcode⟩ := @memory_eq_error { l.store.objects with
    globals := l.store.objects.globals ++ new.toArray } l { l.bound with globals := addresses }
    hchecked.memories haffordable hmodule hconfig
  refine ⟨e, new.toArray, ?_, hcode⟩
  unfold Instantiate.setup
  rw [hmodule, setup_bind_ok hglobals, setup_bind_error hmemory]

/-- The bindings when the memory is there, but not the table. -/
def loading (l : Linkage) (addresses : Array Address) : Bindings :=
  { l.bound with globals := addresses, memory := l.memoryAt? }

theorem module_loading (addresses : Array Address) : (l.loading addresses).module = l.module := by
  show l.bound.module = l.module
  rw [bound_eq]

/-- What is left of an instantiation when the globals and the memory are there. -/
theorem setup_eq (haffordable : l.Affordable) (hglobals : Instantiate.globals l.bound 0
      l.module.globals l.store.objects = .ok { l.bound with globals := addresses }
        { l.store.objects with globals := l.store.objects.globals ++ new.toArray }) :
    Instantiate.setup l.bound l.store.objects =
      (Instantiate.each (Instantiate.dataSegment (l.loading addresses)) 0 l.module.data >>=
      fun _ => do
        let b ← Instantiate.table (Instantiate.functions (l.loading addresses))
        Instantiate.each (Instantiate.elementSegment b) 0 b.module.elements
        return b)
      ⟨l.memories, l.store.objects.tables, l.store.objects.globals ++ new.toArray⟩ := by
  have hmodule : l.bound.module = l.module := by rw [bound_eq]
  have hmemory : Instantiate.memory { l.bound with globals := addresses }
      { l.store.objects with globals := l.store.objects.globals ++ new.toArray } =
    .ok (l.loading addresses)
      ⟨l.memories, l.store.objects.tables, l.store.objects.globals ++ new.toArray⟩ :=
    memory_eq_ok haffordable hmodule (by rw [bound_eq]) (by rw [bound_eq]) rfl
  unfold Instantiate.setup
  rw [congrArg Module.globals hmodule, setup_bind_ok hglobals, setup_bind_ok hmemory,
    module_loading]

/-- After the data, the table is created and the elements are written to it, up to the first that
does not fit. -/
theorem table_cases (hresolved : l.Resolved) (hchecked : Checked l.module)
    (htables : o.tables = l.store.objects.tables) (hfilled : l.Filled (l.ready addresses) o cells) :
    (∀ e ∈ l.module.elements, l.Fits (.element e)) ∧
        ((do
          let b ← Instantiate.table (Instantiate.functions (l.loading addresses))
          Instantiate.each (Instantiate.elementSegment b) 0 b.module.elements
          return b) o) = .ok (l.ready addresses)
            (l.module.elements.foldl l.writeElement { o with tables := l.tables }) ∨
      ∃ before e after, l.module.elements = before ++ e :: after ∧
        (∀ e ∈ before, l.Fits (.element e)) ∧ ¬ l.Fits (.element e) ∧
        ∃ err, ((do
          let b ← Instantiate.table (Instantiate.functions (l.loading addresses))
          Instantiate.each (Instantiate.elementSegment b) 0 b.module.elements
          return b) o) = .error err (before.foldl l.writeElement { o with tables := l.tables }) ∧
            err.code = Code.tableOutOfBounds := by
  have hmodule := module_loading (l := l) addresses
  have htable : Instantiate.table (Instantiate.functions (l.loading addresses)) o =
      .ok (l.ready addresses) { o with tables := l.tables } :=
    table_eq_ok hmodule (by show l.bound.table = _; rw [bound_eq]) htables
  have hrefs : ∀ x, (l.ready addresses).funcRef? x = l.funcRef? x :=
    hresolved.funcRef?_functions hchecked.passed (b := l.loading addresses)
      (by show l.bound.self = _; rw [bound_eq]) hmodule (by show l.bound.funcs = _; rw [bound_eq])
  have hthere : l.HasTable { o with tables := l.tables } := hasTable_blank rfl
  have hfilled' : l.Filled (l.ready addresses) { o with tables := l.tables } cells :=
    hfilled.mono rfl rfl
  rw [setup_bind_ok htable, show (l.ready addresses).module = l.module from hmodule]
  rcases element_cases hresolved hchecked (rfl : (l.ready addresses).table = l.tableAt?) hrefs
      hfilled' hthere with
    ⟨helements, -, hrun⟩ | ⟨before, e, after, hsplit, hbefore, hmiss, err, hrun, hcode⟩
  · refine .inl ⟨helements, ?_⟩
    rw [setup_bind_ok hrun]
    rfl
  · refine .inr ⟨before, e, after, hsplit, hbefore, hmiss, err, ?_, hcode⟩
    rw [setup_bind_error hrun]

/-- All segments are written, or those before the first that does not fit. -/
theorem setup_affordable (hresolved : l.Resolved) (hchecked : Checked l.module)
    (haffordable : l.Affordable) :
    ∃ cells new addresses, cells = l.importedCells ++ new ∧
      (∀ {b : Bindings} {o : Objects}, b.globals = addresses →
        o.globals = l.store.objects.globals ++ new.toArray → l.Filled b o cells) ∧
      ((∀ seg ∈ l.module.segments, l.Fits seg) ∧
          Instantiate.setup l.bound l.store.objects = .ok (l.ready addresses)
            (l.module.segments.foldl l.write (l.blank new l.module.segments.length)) ∨
        ∃ before seg after, l.module.segments = before ++ seg :: after ∧
          (∀ seg ∈ before, l.Fits seg) ∧ ¬ l.Fits seg ∧
          ∃ e, Instantiate.setup l.bound l.store.objects =
              .error e (before.foldl l.write (l.blank new before.length)) ∧
            e.code = seg.code) := by
  obtain ⟨cells, new, addresses, hcells, hglobals, hfilled⟩ := globals_of_bound hresolved hchecked
  refine ⟨cells, new, addresses, hcells, hfilled, ?_⟩
  rw [setup_eq haffordable hglobals]
  have hmemory : l.HasMemory
    ⟨l.memories, l.store.objects.tables, l.store.objects.globals ++ new.toArray⟩ :=
    @hasMemory_blank l new 0
  rcases data_cases hresolved hchecked (rfl : (l.loading addresses).memory = l.memoryAt?)
      (hfilled rfl rfl) hmemory with
    ⟨hdata, ⟨hfilled', -, htables⟩, hrun⟩ | ⟨before, d, after, hsplit, hbefore, hmiss, e, hrun, hcode⟩
  · -- The table is there when the first element is written.
    have hblank (es : List Element) :
        { l.module.data.foldl l.writeData ⟨l.memories, l.store.objects.tables,
            l.store.objects.globals ++ new.toArray⟩ with tables := l.tables } =
          l.module.data.foldl l.writeData (l.blank new
            (l.module.data.map Segment.data ++ es.map Segment.element).length) := by
      have hle : l.module.data.length ≤
          (l.module.data.map Segment.data ++ es.map Segment.element).length := by simp
      rw [← foldl_writeData_tables, blank, if_neg (Nat.not_lt.mpr hle)]
    have hfits (es : List Element) (hes : ∀ e ∈ es, l.Fits (.element e)) :
        ∀ seg ∈ l.module.data.map Segment.data ++ es.map Segment.element, l.Fits seg := by
      simpa [or_imp, forall_and] using ⟨hdata, hes⟩
    rw [setup_bind_ok hrun]
    rcases table_cases hresolved hchecked htables (hfilled'.mono rfl rfl) with
      ⟨helements, hrest⟩ | ⟨before, e, after, hsplit, hbefore, hmiss, err, hrest, hcode⟩
    · refine .inl ⟨hfits _ helements, ?_⟩
      rw [hrest, Module.segments, foldl_segments, ← hblank]
    · refine .inr ⟨l.module.data.map .data ++ before.map .element, .element e, after.map .element,
        ?_, hfits _ hbefore, hmiss, err, ?_, hcode⟩
      · rw [Module.segments, hsplit]
        simp
      · rw [hrest, foldl_segments, ← hblank]
  · refine .inr ⟨before.map .data, .data d, after.map .data ++ l.module.elements.map .element, ?_,
      ?_, hmiss, e, ?_, hcode⟩
    · rw [Module.segments, hsplit]
      simp
    · simpa using hbefore
    · rw [setup_bind_error hrun]
      have hlt : before.length < l.module.data.length := by
        rw [hsplit, List.length_append, List.length_cons]
        omega
      rw [blank, List.length_map, if_pos hlt, List.foldl_map]
      rfl

end Instantiation.Linkage

end Wasm
