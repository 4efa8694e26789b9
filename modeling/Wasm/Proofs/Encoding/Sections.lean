import Wasm.Proofs.Encoding.Instructions

/-!
# Sections read back

One lemma for each kind of entry, and from these one for each section: its content reads back into
the module that has been read so far.  Sizes in front of bodies and sections are those of what
follows, so that the reader, which compares them with what it has consumed, agrees.
-/

namespace Wasm.Binary

/-! ### Entries -/

theorem valueType_ne_nil (t : ValueType) : Writer.valueType t ≠ [] := by
  simp [Writer.valueType]

theorem reads_valueTypes {types : List ValueType}
    (h : (Writer.list Writer.valueType types).length < 4294967296) :
    Reads (Reader.list Reader.valueType) (Writer.list Writer.valueType types) types :=
  reads_list valueType_ne_nil h fun t _ _ => reads_valueType t

theorem reads_funcType {t : FuncType} (h : (Writer.funcType t).length < 4294967296) :
    Reads Reader.funcType (Writer.funcType t) t := by
  simp only [Writer.funcType, List.length_append, List.length_cons] at h
  have hparams : (Writer.list Writer.valueType t.params).length < 4294967296 := by omega
  have hresults : (Writer.list Writer.valueType t.results).length < 4294967296 := by omega
  refine reads_offset fun start => (reads_byte 0x60).bind ?_
  exact (reads_valueTypes hparams).bind ((reads_valueTypes hresults).bind_nil (reads_pure t))

theorem reads_limits (l : Limits) : Reads Reader.limits (Writer.limits l) l := by
  rcases l with ⟨min, _ | max⟩
  · exact reads_offset fun _ => (reads_byte 0x00).bind ((reads_u32 min).bind_nil (reads_pure _))
  · exact reads_offset fun _ => (reads_byte 0x01).bind
      ((reads_u32 min).bind ((reads_u32 max).bind_nil (reads_pure _)))

theorem limits_ne_nil (l : Limits) : Writer.limits l ≠ [] := by
  rcases l with ⟨min, _ | max⟩ <;> simp [Writer.limits]

theorem reads_tableType (t : TableType) : Reads Reader.tableType (Writer.tableType t) t :=
  reads_offset fun _ => (reads_byte 0x70).bind ((reads_limits t.limits).bind_nil (reads_pure _))

theorem reads_globalType (t : GlobalType) : Reads Reader.globalType (Writer.globalType t) t := by
  refine (reads_valueType t.valueType).bind (reads_offset fun start => ?_)
  rcases t with ⟨type, _ | _⟩
  · exact (reads_byte 0x00).bind_nil (reads_pure _)
  · exact (reads_byte 0x01).bind_nil (reads_pure _)

theorem reads_imported {i : Import} (h : (Writer.imported i).length < 4294967296) :
    Reads Reader.imported (Writer.imported i) i := by
  simp only [Writer.imported, List.length_append] at h
  have hmodule : (Writer.name i.module).length < 4294967296 := by omega
  have hname : (Writer.name i.name).length < 4294967296 := by omega
  rw [Writer.imported, List.append_assoc]
  refine (reads_name hmodule).bind ((reads_name hname).bind (reads_offset fun start => ?_))
  rcases i with ⟨module, member, desc⟩
  cases desc with
  | func type =>
    exact (reads_byte 0x00).bind (((reads_u32 type).map _).bind_nil (reads_pure _))
  | table type =>
    exact (reads_byte 0x01).bind (((reads_tableType type).map _).bind_nil (reads_pure _))
  | memory type =>
    exact (reads_byte 0x02).bind (((reads_limits type).map _).bind_nil (reads_pure _))
  | global type =>
    exact (reads_byte 0x03).bind (((reads_globalType type).map _).bind_nil (reads_pure _))

theorem reads_exported {e : Export} (h : (Writer.exported e).length < 4294967296) :
    Reads Reader.exported (Writer.exported e) e := by
  rw [Writer.exported, List.length_append] at h
  have hname : (Writer.name e.name).length < 4294967296 := by omega
  refine (reads_name hname).bind (reads_offset fun start => ?_)
  have hindex (kind : ExternKind) :
    Reads (Reader.u32 >>= fun index => pure (⟨e.name, kind, index⟩ : Export))
      (Writer.u32 e.index) ⟨e.name, kind, e.index⟩ := (reads_u32 e.index).bind_nil (reads_pure _)
  rcases e with ⟨member, kind, index⟩
  cases kind with
  | func => exact (reads_byte 0x00).bind (hindex .func)
  | table => exact (reads_byte 0x01).bind (hindex .table)
  | memory => exact (reads_byte 0x02).bind (hindex .memory)
  | global => exact (reads_byte 0x03).bind (hindex .global)

theorem reads_global {g : Global} (hinit : Instr.AllSuited g.init)
    (h : (Writer.global g).length < 4294967296) : Reads Reader.global (Writer.global g) g := by
  rw [Writer.global, List.length_append] at h
  exact (reads_globalType g.type).bind
    (((reads_expr hinit (by omega)).within _).bind_nil (reads_pure _))

theorem reads_element {e : Element} (hoffset : Instr.AllSuited e.offset)
    (h : (Writer.element e).length < 4294967296) :
    Reads Reader.element (Writer.element e) e := by
  simp only [Writer.element, List.length_append] at h
  have hfuncs : (Writer.list Writer.u32 e.funcs).length < 4294967296 := by omega
  rw [Writer.element, List.append_assoc]
  exact (reads_u32 e.table).bind (((reads_expr hoffset (by omega)).within _).bind
    ((reads_list u32_ne_nil hfuncs fun i _ _ => reads_u32 i).bind_nil (reads_pure _)))

theorem reads_data {d : Data} (hoffset : Instr.AllSuited d.offset)
    (h : (Writer.data d).length < 4294967296) : Reads Reader.data (Writer.data d) d := by
  simp only [Writer.data, List.length_append] at h
  have hsize : d.bytes.length < 4294967296 := by omega
  rw [Writer.data, List.append_assoc, List.append_assoc]
  refine (reads_u32 d.memory).bind (((reads_expr hoffset (by omega)).within _).bind
    ((reads_size hsize).bind ?_))
  rw [toNat_ofNat_size hsize]
  exact (reads_bytesOf "byte sequence" d.bytes).bind_nil (reads_pure _)

theorem reads_locals (l : Locals) : Reads Reader.locals (Writer.locals l) l :=
  (reads_u32 l.count).bind ((reads_valueType l.type).bind_nil (reads_pure _))

theorem locals_ne_nil (l : Locals) : Writer.locals l ≠ [] := by
  simp [Writer.locals, Writer.valueType]

/-! ### Sizes -/

namespace Reader

/-- Reads what is to have `size` bytes. -/
def sized {α : Type} (size : Nat) (short wrong : Nat → Error) (read : Nat → Reader α) :
    Reader α := do
  let start ← offset
  if (← remaining) < size then throw (short start)
  let a ← read start
  let consumed := (← offset) - start
  if consumed ≠ size then throw (wrong consumed)
  return a

/-- The content of a body: what its size counts. -/
def codeContent : Reader Code := do
  let runs ← list locals
  let total := Locals.total runs
  if maxLocals < total then throw (tooManyLocals total)
  let body ← expr
  return ⟨runs, body⟩

/-- The id of a section that comes after those up to `last`. -/
def sectionId (last : UInt8) : Reader UInt8 := do
  let header ← offset
  let id ← byte
  if lastId < id then throw (unknownSection id header)
  if id ≠ customId ∧ id ≤ last then throw (sectionOrder last id header)
  return id

/-- What the size of a section counts. -/
def sectionBody (id : UInt8) (m : Module) (size start : Nat) : Reader Module :=
  if id = customId then do
    let c ← custom size
    pure { m with customs := m.customs ++ [c] }
  else Recorder.within (fun _ => s!"{sectionName id} section at offset {start}")
    (sectionContent id m)

end Reader

open Reader (sized codeContent sectionId sectionBody)

section

variable {α β : Type} {size : Nat} {short wrong : Nat → Error} {read : Nat → Reader α}
  {c c' : Cursor} {a : α} {content : List UInt8}

theorem ite_bind {p : Prop} [Decidable p] (r r' : Reader α) (f : α → Reader β) :
    (if p then r else r') >>= f = if p then r >>= f else r' >>= f :=
  apply_ite (· >>= f) p r r'

theorem sized_eq_ok_iff : sized size short wrong read c = .ok (a, c') ↔
    size ≤ c.rest.length ∧ read c.offset c = .ok (a, c') ∧ c'.offset - c.offset = size := by
  rw [sized, bind_ok (r := Reader.offset) rfl, bind_ok (r := Reader.remaining) rfl]
  by_cases hshort : c.rest.length < size
  · rw [if_pos hshort]
    exact ⟨fun h => (by cases h), fun h => absurd h.1 (Nat.not_le.mpr hshort)⟩
  · rw [if_neg hshort]
    dsimp only
    cases hread : read c.offset c with
    | error e =>
      refine ⟨fun h => ?_, fun h => (by cases h.2.1)⟩
      obtain ⟨a', c₁, hread', -⟩ := bind_eq_ok h
      cases hread.symm.trans hread'
    | ok p =>
      obtain ⟨a', c₁⟩ := p
      rw [bind_ok hread, bind_ok (r := Reader.offset) rfl]
      by_cases hsize : c₁.offset - c.offset = size
      · rw [if_neg (not_not_intro hsize)]
        constructor
        · intro h
          cases h
          exact ⟨Nat.not_lt.mp hshort, rfl, hsize⟩
        · rintro ⟨-, h, -⟩
          cases h
          rfl
      · rw [if_pos hsize]
        constructor
        · intro h
          cases h
        · rintro ⟨-, h, hsize'⟩
          cases h
          exact absurd hsize' hsize

theorem reads_sized (hsize : content.length = size) (h : ∀ start, Reads (read start) content a) :
    Reads (sized size short wrong read) content a := by
  intro offset rest
  refine sized_eq_ok_iff.mpr ⟨?_, h offset offset rest, ?_⟩
  · rw [List.length_append, hsize]
    exact Nat.le_add_right ..
  · exact (Nat.add_sub_cancel_left ..).trans hsize

end

/-! ### Bodies -/

/-- A body is its size and its content. -/
theorem code_eq : Reader.code = Reader.u32 >>= fun n =>
    sized n.toNat (unexpectedEnd "function body") (bodySize n.toNat) fun _ => codeContent := by
  simp only [Reader.code, monadLift_self, Reader.closedSequence_eq, sized, codeContent, bind_assoc,
    pure_bind, ite_bind]

theorem reads_codeContent {c : Code} (hbody : Instr.AllSuited c.body)
    (hlocals : c.localCount ≤ maxLocals) (h : (Writer.codeContent c).length < 4294967296) :
    Reads codeContent (Writer.codeContent c) c := by
  rw [Writer.codeContent, List.length_append] at h
  refine (reads_list locals_ne_nil (by omega) fun l _ _ => reads_locals l).bind ?_
  have htotal : ¬ maxLocals < Locals.total c.locals := Nat.not_lt.mpr hlocals
  dsimp only
  rw [if_neg htotal]
  exact (reads_expr hbody (by omega)).bind_nil (reads_pure c)

theorem reads_code {c : Code} (hbody : Instr.AllSuited c.body) (hlocals : c.localCount ≤ maxLocals)
    (h : (Writer.code c).length < 4294967296) : Reads Reader.code (Writer.code c) c := by
  rw [Writer.code, List.length_append] at h
  have hsize : (Writer.codeContent c).length < 4294967296 := by omega
  rw [code_eq]
  exact (reads_size hsize).bind (reads_sized (toNat_ofNat_size hsize).symm
    fun _ => reads_codeContent hbody hlocals hsize)

/-! ### Contents of sections -/

/-- A title, and opaque bytes to the end. -/
theorem reads_custom_of_name {size : Nat} {k : Custom} {title : List UInt8}
    (h : Reads Reader.name title k.name) (hsize : (title ++ k.bytes).length = size) :
    Reads (Reader.custom size) (title ++ k.bytes) k := by
  intro offset rest
  rw [List.length_append] at hsize
  simp only [Reader.custom, monadLift_self]
  rw [bind_ok (r := Reader.offset) rfl, List.append_assoc,
    bind_ok (h.within _ offset (k.bytes ++ rest)), bind_ok (r := Reader.offset) rfl]
  dsimp only
  have hlength : size - title.length = k.bytes.length := by omega
  rw [Nat.add_sub_cancel_left, if_neg (by omega), hlength]
  show (Reader.bytesOf _ _ >>= _) _ = _
  rw [bind_ok (reads_bytesOf "byte sequence" k.bytes _ rest), List.length_append, Nat.add_assoc]
  rfl

theorem reads_custom {c : Custom} (h : (Writer.customContent c).length < 4294967296) :
    Reads (Reader.custom (Writer.customContent c).length) (Writer.customContent c) c := by
  rw [Writer.customContent, List.length_append] at h
  have hname : (Writer.name c.name).length < 4294967296 := by omega
  exact reads_custom_of_name (reads_name hname) rfl

/-! ### Sections -/

/-- A section is its id, its size and what the size counts. -/
theorem oneSection_eq (last : UInt8) (m : Module) : Reader.oneSection last m =
    sectionId last >>= fun id => Reader.u32 >>= fun n =>
      sized n.toNat (unexpectedEnd (sectionName id)) (sectionSize id n.toNat)
        (sectionBody id m n.toNat) >>= fun m => pure (if id = customId then last else id, m) := by
  simp only [Reader.oneSection, monadLift_self, sectionId, sized, sectionBody, bind_assoc,
    pure_bind, ite_bind]

theorem reads_sectionId {last id : UInt8} (hid : id ≤ lastId)
    (horder : id = customId ∨ last < id) : Reads (sectionId last) [id] id := by
  refine reads_offset fun header => (reads_byte id).bind_nil ?_
  have hnot : ¬ (id ≠ customId ∧ id ≤ last) := fun h =>
    horder.elim h.1 fun hlt => UInt8.not_le.mpr hlt h.2
  rw [if_neg (UInt8.not_lt.mpr hid), if_neg hnot]
  exact reads_pure id

theorem reads_sectionWith {last id : UInt8} {m m' : Module} {content : List UInt8}
    (hid : id ≤ lastId) (horder : id = customId ∨ last < id) (hsize : content.length < 4294967296)
    (h : ∀ start, Reads (sectionBody id m content.length start) content m') :
    Reads (Reader.oneSection last m) (Writer.sectionWith id content)
      (if id = customId then last else id, m') := by
  have hread : Reads (sized (UInt32.ofNat content.length).toNat (unexpectedEnd (sectionName id))
      (sectionSize id (UInt32.ofNat content.length).toNat)
      (sectionBody id m (UInt32.ofNat content.length).toNat)) content m' := by
    rw [toNat_ofNat_size hsize]
    exact reads_sized rfl h
  rw [oneSection_eq]
  exact (reads_sectionId hid horder).bind ((reads_size hsize).bind
    (hread.bind_nil (reads_pure _)))

/-- A section with content comes after those with smaller ids. -/
theorem reads_oneSection {last id : UInt8} {m m' : Module} {content : List UInt8}
    (hid : id ≤ lastId) (hcustom : id ≠ customId) (horder : last < id)
    (hsize : content.length < 4294967296) (h : Reads (Reader.sectionContent id m) content m') :
    Reads (Reader.oneSection last m) (Writer.sectionWith id content) (id, m') := by
  have hread := @reads_sectionWith last id m m' content hid (.inr horder) hsize fun start => by
    unfold sectionBody
    rw [if_neg hcustom]
    exact h.within _
  rwa [if_neg hcustom] at hread

/-- A custom section may come anywhere. -/
theorem reads_oneSection_custom {last : UInt8} {m : Module} {c : Custom}
    (h : (Writer.customContent c).length < 4294967296) :
    Reads (Reader.oneSection last m) (Writer.sectionWith customId (Writer.customContent c))
      (last, { m with customs := m.customs ++ [c] }) :=
  reads_sectionWith (by decide) (.inl rfl) h fun _ => (reads_custom h).bind_nil (reads_pure _)

/-! ### All sections -/

theorem sections_of_oneSection {fuel : Nat} {last last' : UInt8} {m m' : Module} {c c' : Cursor}
    (h : Reader.oneSection (M := Reader) last m c = .ok ((last', m'), c')) (hne : c.rest ≠ []) :
    Reader.sections (M := Reader) (fuel + 1) last m c =
      Reader.sections (M := Reader) fuel last' m' c' := by
  have hleft : c.rest.length ≠ 0 := List.length_eq_zero_iff.not.mpr hne
  rw [Reader.sections, bind_ok (r := liftM Reader.remaining) rfl, if_neg hleft, bind_ok h]

theorem sections_cons {fuel : Nat} {last last' : UInt8} {m m' : Module} {first : List UInt8}
    (h : Reads (Reader.oneSection last m) first (last', m')) (hne : first ≠ []) (offset : Nat)
    (others : List UInt8) :
    Reader.sections (M := Reader) (fuel + 1) last m ⟨offset, first ++ others⟩ =
      Reader.sections (M := Reader) fuel last' m' ⟨offset + first.length, others⟩ :=
  sections_of_oneSection (h offset others) (List.append_ne_nil_of_left_ne_nil hne others)

/-- After the header of a module come its sections. -/
theorem module_header (rest : List UInt8) :
    Reader.module (M := Reader) (Cursor.start (header ++ rest)) =
      Reader.sections (M := Reader) rest.length customId {} ⟨8, rest⟩ := by
  simp only [Reader.module, monadLift_self]
  rw [header, List.append_assoc, Cursor.start, bind_ok (reads_u32Fixed magic 0 _),
    if_neg (by simp), bind_ok (reads_u32Fixed version _ _), if_neg (by simp),
    bind_ok (r := Reader.remaining) rfl]
  rfl

theorem module_of_decode {input : List UInt8} {m : Module} (h : decode input = .ok m) :
    ∃ c, Reader.module (M := Reader) (Cursor.start input) = .ok (m, c) := by
  unfold decode at h
  cases hmodule : Reader.module (M := Reader) (Cursor.start input) with
  | error e =>
    rw [hmodule] at h
    cases h
  | ok p =>
    rw [hmodule] at h
    cases h
    exact ⟨p.2, rfl⟩

end Wasm.Binary
