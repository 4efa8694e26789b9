import Wasm.Proofs.Encoding.Sections

/-!
# Decoding undoes encoding

`decode_of_encodes`: every binary form of a module decodes to the module.  A section with content
puts one field into the module that has been read so far (`Part`), and the parts of a module put
together all of its fields.  Custom sections only add to the list of custom sections, which no other
section looks at; so it makes no difference where they stand.
-/

namespace Wasm.Binary

/-! ### Parts of a module -/

/-- A section with content, and what reading it does to a module. -/
structure Part where
  id : UInt8
  content : List UInt8
  put : Module → Module

/-- The id and the content alone. -/
def Part.written (p : Part) : UInt8 × List UInt8 :=
  (p.id, p.content)

/-- The part reads back, whatever has been read before it, and leaves the custom sections alone. -/
structure Part.Valid (p : Part) : Prop where
  id_le : p.id ≤ lastId
  id_ne : p.id ≠ customId
  size : p.content.length < 4294967296
  reads : ∀ m, Reads (Reader.sectionContent p.id m) p.content (p.put m)
  frame : ∀ (m : Module) (customs : List Custom),
    p.put { m with customs := customs } = { p.put m with customs := customs }

/-- What all the parts together do to a module. -/
def putAll (parts : List Part) (m : Module) : Module :=
  parts.foldl (fun m p => p.put m) m

theorem Part.Valid.customs_put {p : Part} (h : p.Valid) (m : Module) :
    (p.put m).customs = m.customs := by
  have hframe : p.put m = { p.put m with customs := m.customs } := h.frame m m.customs
  rw [hframe]

theorem putAll_customs {parts : List Part} (h : ∀ p ∈ parts, p.Valid) (m : Module)
    (customs : List Custom) :
    putAll parts { m with customs := customs } = { putAll parts m with customs := customs } := by
  induction parts generalizing m with
  | nil => rfl
  | cons p parts ih =>
    show putAll parts (p.put { m with customs := customs }) = _
    rw [(h p (by simp)).frame, ih fun q hq => h q (List.mem_cons_of_mem p hq)]
    rfl

theorem putAll_append (parts parts' : List Part) (m : Module) :
    putAll (parts ++ parts') m = putAll parts' (putAll parts m) :=
  List.foldl_append

/-- The part for a list, if there is anything in it. -/
def filledPart {α : Type} (id : UInt8) (write : α → List UInt8) (put : List α → Module → Module) :
    List α → List Part
  | [] => []
  | items => [⟨id, Writer.list write items, put items⟩]

theorem written_filledPart {α : Type} (id : UInt8) (write : α → List UInt8)
    (put : List α → Module → Module) (items : List α) :
    (filledPart id write put items).map Part.written = Writer.filled id write items := by
  cases items <;> rfl

theorem id_filledPart {α : Type} (id : UInt8) (write : α → List UInt8)
    (put : List α → Module → Module) (items : List α) :
    ((filledPart id write put items).map Part.id).Sublist [id] := by
  cases items with
  | nil => exact List.nil_sublist _
  | cons x items => exact List.Sublist.refl _

theorem putAll_filledPart {α : Type} (id : UInt8) (write : α → List UInt8)
    (put : List α → Module → Module) (items : List α) {m : Module} (h : put [] m = m) :
    putAll (filledPart id write put items) m = put items m := by
  cases items with
  | nil => exact h.symm
  | cons x items => rfl

theorem mem_filledPart {α : Type} {id : UInt8} {write : α → List UInt8}
    {put : List α → Module → Module} {items : List α} {p : Part}
    (h : p ∈ filledPart id write put items) : p = ⟨id, Writer.list write items, put items⟩ := by
  cases items with
  | nil => simp [filledPart] at h
  | cons x items => exact List.mem_singleton.mp h

/-- The part for the start function, if there is one. -/
def startPart : Option UInt32 → List Part
  | none => []
  | some f => [⟨8, Writer.u32 f, fun m => { m with start := some f }⟩]

theorem written_startPart (start : Option UInt32) :
    (startPart start).map Part.written = start.toList.map fun f => (8, Writer.u32 f) := by
  cases start <;> rfl

theorem id_startPart (start : Option UInt32) : ((startPart start).map Part.id).Sublist [8] := by
  cases start with
  | none => exact List.nil_sublist _
  | some f => exact List.Sublist.refl _

theorem putAll_startPart (start : Option UInt32) {m : Module} (h : m.start = none) :
    putAll (startPart start) m = { m with start := start } := by
  cases start with
  | none =>
    show m = _
    rw [← h]
  | some f => rfl

/-- The parts of a module, in the order of their ids. -/
def parts (m : Module) : List Part :=
  filledPart 1 Writer.funcType (fun xs m => { m with types := xs }) m.types ++
  filledPart 2 Writer.imported (fun xs m => { m with imports := xs }) m.imports ++
  filledPart 3 Writer.u32 (fun xs m => { m with functions := xs }) m.functions ++
  filledPart 4 Writer.tableType (fun xs m => { m with tables := xs }) m.tables ++
  filledPart 5 Writer.limits (fun xs m => { m with memories := xs }) m.memories ++
  filledPart 6 Writer.global (fun xs m => { m with globals := xs }) m.globals ++
  filledPart 7 Writer.exported (fun xs m => { m with exports := xs }) m.exports ++
  startPart m.start ++
  filledPart 9 Writer.element (fun xs m => { m with elements := xs }) m.elements ++
  filledPart 10 Writer.code (fun xs m => { m with codes := xs }) m.codes ++
  filledPart 11 Writer.data (fun xs m => { m with data := xs }) m.data

theorem written_parts (m : Module) : (parts m).map Part.written = Writer.contents m := by
  simp only [parts, List.map_append, written_filledPart, written_startPart, Writer.contents]

/-- Parts come in the order of their ids. -/
theorem pairwise_parts (m : Module) : (parts m).Pairwise fun p q => p.id < q.id := by
  rw [← List.pairwise_map]
  have hsublist : ((parts m).map Part.id).Sublist [1, 2, 3, 4, 5, 6, 7, 8, 9, 10, 11] := by
    simp only [parts, List.map_append]
    exact ((((((((((id_filledPart 1 _ _ _).append (id_filledPart 2 _ _ _)).append
      (id_filledPart 3 _ _ _)).append (id_filledPart 4 _ _ _)).append
      (id_filledPart 5 _ _ _)).append (id_filledPart 6 _ _ _)).append
      (id_filledPart 7 _ _ _)).append (id_startPart _)).append (id_filledPart 9 _ _ _)).append
      (id_filledPart 10 _ _ _)).append (id_filledPart 11 _ _ _)
  exact List.Pairwise.sublist hsublist (by decide)

/-- The parts of a module make up all of it but the custom sections. -/
theorem putAll_parts (m : Module) : putAll (parts m) {} = { m with customs := [] } := by
  simp only [parts, putAll_append]
  rw [putAll_filledPart 1 _ _ _ rfl, putAll_filledPart 2 _ _ _ rfl, putAll_filledPart 3 _ _ _ rfl,
    putAll_filledPart 4 _ _ _ rfl, putAll_filledPart 5 _ _ _ rfl, putAll_filledPart 6 _ _ _ rfl,
    putAll_filledPart 7 _ _ _ rfl, putAll_startPart _ rfl, putAll_filledPart 9 _ _ _ rfl,
    putAll_filledPart 10 _ _ _ rfl, putAll_filledPart 11 _ _ _ rfl]

/-! ### Every part reads back -/

/-- A section for a list that is read by `r`. -/
theorem valid_of_mem_filledPart {α : Type} {id : UInt8} {write : α → List UInt8}
    {put : List α → Module → Module} {items : List α} {r : Reader (List α)} {p : Part}
    (hp : p ∈ filledPart id write put items) (hsize : p.content.length < 4294967296)
    (hr : (Writer.list write items).length < 4294967296 → Reads r (Writer.list write items) items)
    (hcontent : ∀ m, Reader.sectionContent id m = r >>= fun xs => pure (put xs m))
    (hframe : ∀ (m : Module) (customs : List Custom),
      put items { m with customs := customs } = { put items m with customs := customs })
    (hid : id ≤ lastId ∧ id ≠ customId) : p.Valid := by
  obtain rfl := mem_filledPart hp
  refine ⟨hid.1, hid.2, hsize, fun m => ?_, hframe⟩
  show Reads (Reader.sectionContent id m) _ _
  rw [hcontent]
  exact (hr hsize).bind_nil (reads_pure _)

theorem valid_of_mem_startPart {start : Option UInt32} {p : Part} (hp : p ∈ startPart start)
    (hsize : p.content.length < 4294967296) : p.Valid := by
  cases start with
  | none => simp [startPart] at hp
  | some f =>
    rw [startPart, List.mem_singleton] at hp
    subst hp
    have hid : (8 : UInt8) ≤ lastId ∧ (8 : UInt8) ≠ customId := by decide
    exact ⟨hid.1, hid.2, hsize, fun m => (reads_u32 f).bind_nil (reads_pure _), fun _ _ => rfl⟩

/-- The parts of a module that can be encoded read back. -/
theorem valid_of_mem_parts {m : Module} (hm : Encodable m) : ∀ p ∈ parts m, p.Valid := by
  intro p hp
  have hsize : p.content.length < 4294967296 := by
    refine hm.contents p.written ?_
    rw [← written_parts]
    exact List.mem_map_of_mem hp
  simp only [parts, List.mem_append, or_assoc] at hp
  rcases hp with hp | hp | hp | hp | hp | hp | hp | hp | hp | hp | hp
  · refine valid_of_mem_filledPart hp hsize (fun h => ?_) (fun _ => rfl) (fun _ _ => rfl) (by decide)
    exact reads_list (by simp [Writer.funcType]) h fun _ _ => reads_funcType
  · refine valid_of_mem_filledPart hp hsize (fun h => ?_) (fun _ => rfl) (fun _ _ => rfl) (by decide)
    exact reads_list (by simp [Writer.imported]) h fun _ _ => reads_imported
  · refine valid_of_mem_filledPart hp hsize (fun h => ?_) (fun _ => rfl) (fun _ _ => rfl) (by decide)
    exact reads_list u32_ne_nil h fun i _ _ => reads_u32 i
  · refine valid_of_mem_filledPart hp hsize (fun h => ?_) (fun _ => rfl) (fun _ _ => rfl) (by decide)
    exact reads_list (by simp [Writer.tableType]) h fun t _ _ => reads_tableType t
  · refine valid_of_mem_filledPart hp hsize (fun h => ?_) (fun _ => rfl) (fun _ _ => rfl) (by decide)
    exact reads_list limits_ne_nil h fun l _ _ => reads_limits l
  · refine valid_of_mem_filledPart hp hsize (fun h => ?_) (fun _ => rfl) (fun _ _ => rfl) (by decide)
    exact reads_list (by simp [Writer.global, Writer.globalType]) h fun g hg =>
      reads_global (hm.globals g hg)
  · refine valid_of_mem_filledPart hp hsize (fun h => ?_) (fun _ => rfl) (fun _ _ => rfl) (by decide)
    exact reads_list (by simp [Writer.exported]) h fun _ _ => reads_exported
  · exact valid_of_mem_startPart hp hsize
  · refine valid_of_mem_filledPart hp hsize (fun h => ?_) (fun _ => rfl) (fun _ _ => rfl) (by decide)
    exact reads_list (by simp [Writer.element]) h fun e he => reads_element (hm.elements e he)
  · refine valid_of_mem_filledPart hp hsize (fun h => ?_) (fun _ => rfl) (fun _ _ => rfl) (by decide)
    exact reads_numberedList (by simp [Writer.code]) h fun c hc hlt _ =>
      (reads_code (hm.codes c hc) (hm.locals c hc) hlt).within _
  · refine valid_of_mem_filledPart hp hsize (fun h => ?_) (fun _ => rfl) (fun _ _ => rfl) (by decide)
    exact reads_list (by simp [Writer.data]) h fun d hd => reads_data (hm.data d hd)

/-! ### All sections -/

/-- Sections that interleave the parts of a module with custom sections put the parts into it and
append the custom sections. -/
theorem sections_of_interleaves {written customs sections : List (UInt8 × List UInt8)}
    (h : Interleaves written customs sections) :
    ∀ {ps : List Part} {cs : List Custom} {fuel : Nat} {last : UInt8} {m : Module},
      written = ps.map Part.written → customs = cs.map Writer.custom →
      (∀ p ∈ ps, p.Valid ∧ last < p.id) → (ps.Pairwise fun p q => p.id < q.id) →
      (∀ c ∈ cs, (Writer.customContent c).length < 4294967296) →
      (Writer.sections sections).length ≤ fuel → ∀ offset,
        Reader.sections (M := Reader) fuel last m ⟨offset, Writer.sections sections⟩ =
          .ok ({ putAll ps m with customs := m.customs ++ cs },
            ⟨offset + (Writer.sections sections).length, []⟩) := by
  induction h with
  | nil =>
    intro ps cs fuel last m hps hcs _ _ _ _ offset
    obtain rfl := List.map_eq_nil_iff.mp hps.symm
    obtain rfl := List.map_eq_nil_iff.mp hcs.symm
    simp only [List.append_nil]
    cases fuel <;> rfl
  | @left x written customs sections h ih =>
    intro ps cs fuel last m hps hcs hvalid hsorted hsizes hfuel offset
    obtain ⟨p, ps, rfl, rfl, rfl⟩ := List.map_eq_cons_iff.mp hps.symm
    obtain ⟨hp, hlast⟩ := hvalid p (by simp)
    obtain ⟨hfirst, hsorted⟩ := List.pairwise_cons.mp hsorted
    have hread := reads_oneSection hp.id_le hp.id_ne hlast hp.size (hp.reads m)
    have hbytes : Writer.sections (p.written :: sections) =
        Writer.sectionWith p.id p.content ++ Writer.sections sections := rfl
    rw [hbytes, List.length_append] at hfuel
    cases fuel with
    | zero => simp [Writer.sectionWith] at hfuel
    | succ fuel =>
      have hrest := @ih ps cs fuel p.id (p.put m) rfl hcs
        (fun q hq => ⟨(hvalid q (List.mem_cons_of_mem p hq)).1, hfirst q hq⟩) hsorted hsizes
        (by simp only [Writer.sectionWith, List.length_append, List.length_cons] at hfuel; omega)
        (offset + (Writer.sectionWith p.id p.content).length)
      rw [hbytes, sections_cons hread (by simp [Writer.sectionWith]), hrest, hp.customs_put,
        List.length_append, Nat.add_assoc]
      rfl
  | @right x written customs sections h ih =>
    intro ps cs fuel last m hps hcs hvalid hsorted hsizes hfuel offset
    obtain ⟨c, cs, rfl, rfl, rfl⟩ := List.map_eq_cons_iff.mp hcs.symm
    -- A custom section leaves the id that the next part has to exceed as it is.
    have hread := @reads_oneSection_custom last m c (hsizes c (by simp))
    have hbytes : Writer.sections (Writer.custom c :: sections) =
        Writer.sectionWith customId (Writer.customContent c) ++ Writer.sections sections := rfl
    rw [hbytes, List.length_append] at hfuel
    cases fuel with
    | zero => simp [Writer.sectionWith] at hfuel
    | succ fuel =>
      have hrest := @ih ps cs fuel last { m with customs := m.customs ++ [c] } hps rfl hvalid
        hsorted (fun d hd => hsizes d (List.mem_cons_of_mem c hd))
        (by simp only [Writer.sectionWith, List.length_append, List.length_cons] at hfuel; omega)
        (offset + (Writer.sectionWith customId (Writer.customContent c)).length)
      rw [hbytes, sections_cons hread (by simp [Writer.sectionWith]), hrest,
        putAll_customs fun p hp => (hvalid p hp).1, List.length_append, Nat.add_assoc]
      simp

/-- **Decoding undoes encoding.**  Every binary form of a module decodes to the module. -/
theorem decode_of_encodes {m : Module} {bytes : List UInt8} (hm : Encodable m)
    (h : Encodes m bytes) : decode bytes = .ok m := by
  obtain ⟨sections, hsections, rfl⟩ := h
  have hvalid : ∀ p ∈ parts m, p.Valid ∧ customId < p.id := fun p hp =>
    ⟨valid_of_mem_parts hm p hp, UInt8.pos_iff_ne_zero.mpr (valid_of_mem_parts hm p hp).id_ne⟩
  have hrun := @sections_of_interleaves _ _ _ hsections (parts m) m.customs
    (Writer.sections sections).length customId {} (written_parts m).symm rfl hvalid (pairwise_parts m)
    hm.customs (Nat.le_refl _) 8
  unfold decode
  rw [module_header, hrun, putAll_parts]
  rfl

/-- A custom section between two others, an `if` with both arms, and a float that is not a
number. -/
theorem decode_module_with_custom :
    decode [0x00, 0x61, 0x73, 0x6d, 0x01, 0x00, 0x00, 0x00,
      0x01, 0x06, 0x01, 0x60, 0x01, 0x7f, 0x01, 0x7d,
      0x00, 0x04, 0x01, 0x6e, 0xff, 0x00,
      0x03, 0x02, 0x01, 0x00,
      0x0a, 0x14, 0x01, 0x12, 0x00, 0x20, 0x00, 0x04, 0x7d, 0x43, 0x01, 0x00, 0xc0, 0x7f, 0x05,
      0x43, 0x00, 0x00, 0x00, 0x80, 0x0b, 0x0b] =
    .ok {
      types := [⟨[.i32], [.f32]⟩]
      functions := [0]
      codes := [⟨[], [.plain .localGet (.index 0), .ifElse .ifElse (.value .f32)
        [.plain (.const .f32) (.value (.f32 0x7fc00001))]
        [.plain (.const .f32) (.value (.f32 0x80000000))]]⟩]
      customs := [⟨"n", [0xff, 0x00]⟩] } := by
  refine decode_of_encodes ?_ ?_
  · have hbody : Instr.AllSuited [.plain .localGet (.index 0), .ifElse .ifElse (.value .f32)
        [.plain (.const .f32) (.value (.f32 0x7fc00001))]
        [.plain (.const .f32) (.value (.f32 0x80000000))]] :=
      .cons (.plain rfl) (.cons (.ifElse (.cons (.plain rfl) .nil) (.cons (.plain rfl) .nil)) .nil)
    refine ⟨?_, ?_, ?_, ?_, ?_, ?_, ?_⟩
    · simpa using hbody
    · simp [Code.localCount, Locals.total]
    · simp
    · simp
    · simp
    · decide +kernel
    · decide +kernel
  · refine ⟨_, .left (.right (.left (.left .nil))), ?_⟩
    decide +kernel

end Wasm.Binary
