import Wasm.Proofs.Instantiation.Parts

/-!
# Segments

A segment is looked at before anything of it is written: either it fits, and then it is written as
a whole (`write`), or it does not, and then its failure has the code of its kind.  The parts of an
instantiation together write the segments of the module up to the first that does not fit.
-/

namespace Wasm.Instantiation.Linkage

variable {l : Linkage} {b : Bindings} {o : Objects} {cells : List Cell}

/-- The objects after a data segment that fits has been written. -/
def writeData (l : Linkage) (o : Objects) (d : Data) : Objects :=
  match l.memory?, l.offset? (.data d) with
  | some (a, _), some n => o.putBytes a n.toNat d.bytes
  | _, _ => o

/-- The objects after an element segment that fits has been written. -/
def writeElement (l : Linkage) (o : Objects) (e : Element) : Objects :=
  match l.table?, l.offset? (.element e) with
  | some (a, _), some n => o.putSlots a n.toNat (e.funcs.filterMap l.funcRef?)
  | _, _ => o

/-- The objects after a segment that fits has been written. -/
def write (l : Linkage) (o : Objects) : Segment → Objects
  | .data d => l.writeData o d
  | .element e => l.writeElement o e

theorem writeData_eq {d : Data} {a : Address} {mem : Memory} {n : UInt32}
    (hmemory : l.memory? = some (a, mem)) (hn : l.offset? (.data d) = some n) :
    l.writeData o d = o.putBytes a n.toNat d.bytes := by
  simp only [writeData, hmemory, hn]

theorem writeElement_eq {e : Element} {a : Address} {t : Table} {n : UInt32}
    (htable : l.table? = some (a, t)) (hn : l.offset? (.element e) = some n) :
    l.writeElement o e = o.putSlots a n.toNat (e.funcs.filterMap l.funcRef?) := by
  simp only [writeElement, htable, hn]

/-- The cells of all globals of the module stand in the objects. -/
structure Filled (l : Linkage) (b : Bindings) (o : Objects) (cells : List Cell) : Prop where
  initial : l.globals? = some cells
  held : Cells l.module o b.globals cells
  length : cells.length = l.module.count .global

theorem Filled.mono {b' : Bindings} {o' : Objects} (h : l.Filled b o cells)
    (hb : b'.globals = b.globals) (ho : o'.globals = o.globals) : l.Filled b' o' cells := by
  refine ⟨h.initial, ?_, h.length⟩
  rw [hb]
  exact h.held.mono fun hc => by rw [ho]; exact hc

theorem exists_offset (h : l.Filled b o cells) {seg : Segment}
    (haccepted : Accepted l.module .i32 (l.module.count .global) seg.offset) :
    ∃ n, l.offset? seg = some n ∧ Instantiate.offset o b.globals seg.offset = .ok n := by
  have hvisible := h.held.visible
  rw [h.length] at hvisible
  obtain ⟨v, hv, htype⟩ := haccepted.exists_value hvisible
  have hvalue := valueOf?_eq h.held haccepted (Nat.le_of_eq h.length.symm) hv
  cases v with
  | i32 n =>
    refine ⟨n, ?_, ?_⟩
    · rw [offset?, h.initial, Option.bind_some, hvalue]
      rfl
    · rw [Instantiate.offset, hv]
  | _ => cases htype

/-- The offset of a segment is evaluated without a change to the objects. -/
theorem within_offset (outer : String) {e : Expr} {n : UInt32}
    (h : Instantiate.offset o b.globals e = .ok n) :
    Instantiate.within outer (do Instantiate.lift (Instantiate.offset (← get) b.globals e)) o =
      .ok n o := by
  refine Safety.within_ok _ ?_
  show Instantiate.lift (Instantiate.offset o b.globals e) o = _
  rw [h]
  rfl

/-! ### Data -/

theorem dataSegment_cases (h : l.Filled b o cells) {d : Data} {index : Nat}
    (haccepted : Accepted l.module .i32 (l.module.count .global) d.offset) {a : Address}
    {mem mem' : Memory} (hmemory : l.memory? = some (a, mem)) (hb : b.memory = some a)
    (hmem : o.memories[a]? = some mem') (hsize : mem'.bytes.size = mem.bytes.size) :
    l.Fits (.data d) ∧ Instantiate.dataSegment b index d o = .ok () (l.writeData o d) ∨
      ¬ l.Fits (.data d) ∧ ∃ e, Instantiate.dataSegment b index d o = .error e o ∧
        e.code = Code.memoryOutOfBounds := by
  obtain ⟨n, hn, hoffset⟩ := @exists_offset _ _ _ _ h (.data d) haccepted
  replace hoffset : Instantiate.offset o b.globals d.offset = .ok n := hoffset
  have hroom : l.room? (.data d) = some mem.bytes.size := by rw [room?, hmemory]; rfl
  have hrun : Instantiate.dataSegment b index d o =
      (if mem'.inBounds n.toNat d.bytes.length then
        modify fun o => o.putBytes a n.toNat d.bytes
      else Instantiate.within s!"data[{index}]"
        (Instantiate.orTrap (.error (mem'.outOfBounds n.toNat d.bytes.length)))) o := by
    unfold Instantiate.dataSegment
    rw [setup_bind_ok (within_offset _ hoffset), Bindings.memoryAt, hb]
    show (Instantiate.orTrap (o.memory a) >>= fun m => _) o = _
    rw [Objects.memory, hmem]
    rfl
  have hbounds : mem'.inBounds n.toNat d.bytes.length ↔
      n.toNat + d.bytes.length ≤ mem.bytes.size := by rw [Memory.inBounds, hsize]
  rw [hrun]
  by_cases hfits : n.toNat + d.bytes.length ≤ mem.bytes.size
  · refine .inl ⟨⟨n, _, hn, hroom, hfits⟩, ?_⟩
    rw [if_pos (hbounds.mpr hfits), writeData_eq hmemory hn]
    rfl
  · refine .inr ⟨?_, ?_⟩
    · rintro ⟨n', room, hn', hroom', hfits'⟩
      cases hn.symm.trans hn'
      cases hroom.symm.trans hroom'
      exact hfits hfits'
    · rw [if_neg (mt hbounds.mp hfits)]
      exact ⟨_, Safety.within_error _ rfl, rfl⟩

/-! ### Functions -/

/-- Each function of the module has a type. -/
theorem exists_type_of_passed {m : Module} (hpassed : Validation.Passed m) {k : Nat} {t : UInt32}
    (ht : m.functions[k]? = some t) : ∃ type, m.types[t.toNat]? = some type := by
  have hlt : k < m.codes.length := by
    rw [← hpassed.count]
    exact (List.getElem?_eq_some_iff.mp ht).1
  have hzip : (m.functions.zip m.codes)[k]? = some (t, m.codes[k]) :=
    List.getElem?_zip_eq_some.mpr ⟨ht, List.getElem?_eq_getElem hlt⟩
  exact Typing.exists_type_of_function (hpassed.bodies (List.mem_of_getElem? hzip))

/-- The functions of the module come after the imported ones, each with the type of its index. -/
theorem Resolved.funcRef?_functions (h : l.Resolved) (hpassed : Validation.Passed l.module)
    (hself : b.self = l.store.instances.size) (hmodule : b.module = l.module)
    (hfuncs : b.funcs = ((l.members.filterMap Member.func?).map Func.imported).toArray)
    (x : UInt32) : (Instantiate.functions b).funcRef? x = l.funcRef? x := by
  have hlength := h.forall₂_importedFuncs.length_eq
  rw [Bindings.funcRef?, funcRef?, Instantiate.functions, hfuncs, hself, hmodule]
  dsimp only
  rw [Array.getElem?_append]
  cases hx : (l.members.filterMap Member.func?)[x.toNat]? with
  | some f =>
    have hlt := (List.getElem?_eq_some_iff.mp hx).1
    rw [if_pos (by simpa using hlt)]
    simp [hx]
  | none =>
    have hle := List.getElem?_eq_none_iff.mp hx
    rw [if_neg (by simpa using hle)]
    dsimp only
    rw [Module.funcType?, Module.funcTypeIndex?_eq, Module.funcTypeIndices,
      List.getElem?_append_right (hlength ▸ hle), hlength]
    have hsize : ((l.members.filterMap Member.func?).map Func.imported).toArray.size =
        (l.members.filterMap Member.func?).length := List.length_map ..
    rw [hsize, List.getElem?_toArray, List.getElem?_map]
    cases hzip : (l.module.functions.zip l.module.codes)[x.toNat -
        (l.members.filterMap Member.func?).length]? with
    | none =>
      have hlt := List.getElem?_eq_none_iff.mp hzip
      rw [List.length_zip, ← hpassed.count, Nat.min_self] at hlt
      rw [List.getElem?_eq_none_iff.mpr hlt]
      rfl
    | some p =>
      obtain ⟨t, code⟩ := p
      obtain ⟨ht, -⟩ := List.getElem?_zip_eq_some.mp hzip
      obtain ⟨type, htype⟩ := exists_type_of_passed hpassed ht
      dsimp only at ht htype
      rw [ht, Option.bind_some, htype]
      simp only [Option.map_some, htype, Option.getD_some]

theorem Resolved.exists_funcRef (h : l.Resolved) (hpassed : Validation.Passed l.module)
    {x : UInt32} (hx : x.toNat < l.module.count .func) : ∃ f, l.funcRef? x = some f := by
  have hlength := h.forall₂_importedFuncs.length_eq
  rw [funcRef?]
  cases hfunc : (l.members.filterMap Member.func?)[x.toNat]? with
  | some f => exact ⟨f, rfl⟩
  | none =>
    have hle := List.getElem?_eq_none_iff.mp hfunc
    have hlt : x.toNat - l.module.importedFuncs.length < l.module.functions.length := by
      rw [Module.count, ← Module.length_importedFuncs] at hx
      omega
    have ht := List.getElem?_eq_getElem hlt
    obtain ⟨type, htype⟩ := exists_type_of_passed hpassed ht
    refine ⟨.owned type l.store.instances.size x, ?_⟩
    dsimp only
    rw [Module.funcType?, Module.funcTypeIndex?_eq, Module.funcTypeIndices,
      List.getElem?_append_right (hlength ▸ hle), ht, Option.bind_some, htype]
    rfl

theorem references_eq {index : Nat} {indices : List UInt32}
    (h : ∀ x ∈ indices, ∃ f, b.funcRef? x = some f) :
    Instantiate.references b index indices = .ok (indices.filterMap b.funcRef?) := by
  induction indices with
  | nil => rfl
  | cons x rest ih =>
    obtain ⟨f, hf⟩ := h x (List.mem_cons_self ..)
    rw [Instantiate.references, hf, ih fun y hy => h y (List.mem_cons_of_mem _ hy),
      List.filterMap_cons, hf]

/-! ### Elements -/

theorem elementSegment_cases (h : l.Filled b o cells) {e : Element} {index : Nat}
    (haccepted : Accepted l.module .i32 (l.module.count .global) e.offset) {a : Address}
    {t t' : Table} (htable : l.table? = some (a, t)) (hb : b.table = some a)
    (ht : o.tables[a]? = some t') (hsize : t'.slots.size = t.slots.size)
    (hrefs : ∀ x, b.funcRef? x = l.funcRef? x)
    (hfuncs : ∀ x ∈ e.funcs, ∃ f, l.funcRef? x = some f) :
    l.Fits (.element e) ∧
        Instantiate.elementSegment b index e o = .ok () (l.writeElement o e) ∨
      ¬ l.Fits (.element e) ∧ ∃ err, Instantiate.elementSegment b index e o = .error err o ∧
        err.code = Code.tableOutOfBounds := by
  obtain ⟨n, hn, hoffset⟩ := @exists_offset _ _ _ _ h (.element e) haccepted
  replace hoffset : Instantiate.offset o b.globals e.offset = .ok n := hoffset
  have hroom : l.room? (.element e) = some t.size.toNat := by rw [room?, htable]; rfl
  have hsize' : t'.size = t.size := by rw [Table.size, Table.size, hsize]
  have hrun : Instantiate.elementSegment b index e o =
      (if n.toNat + e.funcs.length ≤ t'.size.toNat then do
        let funcs ← Instantiate.lift (Instantiate.references b index e.funcs)
        modify fun o => o.putSlots a n.toNat funcs
      else Instantiate.orTrap (.error (.elementOutOfBounds index e.funcs.length n t'.size))) o := by
    unfold Instantiate.elementSegment
    rw [setup_bind_ok (within_offset _ hoffset), Bindings.tableAt, hb]
    show (Instantiate.orTrap (o.table a) >>= fun t => _) o = _
    rw [Objects.table, ht]
    rfl
  rw [hrun, hsize']
  by_cases hfits : n.toNat + e.funcs.length ≤ t.size.toNat
  · refine .inl ⟨⟨n, _, hn, hroom, hfits⟩, ?_⟩
    rw [if_pos hfits, references_eq fun x hx => by rw [hrefs]; exact hfuncs x hx,
      writeElement_eq htable hn, funext hrefs]
    rfl
  · refine .inr ⟨?_, ?_⟩
    · rintro ⟨n', room, hn', hroom', hfits'⟩
      cases hn.symm.trans hn'
      cases hroom.symm.trans hroom'
      exact hfits hfits'
    · rw [if_neg hfits]
      exact ⟨_, rfl, rfl⟩

end Wasm.Instantiation.Linkage
