import Wasm.Proofs.Encoding.Sections
import Wasm.Proofs.Framing.Grammar

/-!
# Sections and bodies keep to their sizes

A section, and a body within the code section, says how many bytes it has.  Its entries are read
from the whole input, and the size is compared only afterwards with what they took.  But a reader
takes what it accepts from the bytes that it consumes, so the entries are what they would be if the
input ended with the section.
-/

namespace Wasm.Module

/-- The field that sections with an id fill, in a module that has nothing else. -/
def only (id : UInt8) (m : Module) : Module where
  types := if id = 1 then m.types else []
  imports := if id = 2 then m.imports else []
  functions := if id = 3 then m.functions else []
  tables := if id = 4 then m.tables else []
  memories := if id = 5 then m.memories else []
  globals := if id = 6 then m.globals else []
  exports := if id = 7 then m.exports else []
  start := if id = 8 then m.start else none
  elements := if id = 9 then m.elements else []
  codes := if id = 10 then m.codes else []
  data := if id = 11 then m.data else []

end Wasm.Module

namespace Wasm.Binary

variable {ι α β : Type} {fuel : ι → Nat}

/-! ### Bytes with their number -/

/-- Bytes with their number in front of them. -/
structure Chunk where
  /-- The number as it is written, which need not be the shortest form. -/
  size : List UInt8
  content : List UInt8

/-- The bytes of a chunk. -/
def Chunk.bytes (k : Chunk) : List UInt8 :=
  k.size ++ k.content

/-- The number is that of the bytes. -/
def Chunk.Sized (k : Chunk) : Prop :=
  ∃ n, Reads Reader.u32 k.size n ∧ n.toNat = k.content.length

open Reader (sized codeContent sectionId sectionBody)

variable {size : Nat} {short wrong : Nat → Error} {read : Nat → Reader α} {c c' : Cursor} {a : α}
  {content : List UInt8}

/-- What is read takes `size` bytes, and would be read from these alone. -/
theorem reads_of_sized (hread : ∀ start, Carries (fun p : ι × Nat => fuel p.1) (read start)
      fun p => read p.2) (h : sized size short wrong read c = .ok (a, c')) :
    ∃ content, c.rest = content ++ c'.rest ∧ c'.offset = c.offset + content.length ∧
      content.length = size ∧
      ∀ j, content.length < fuel j → ∀ start, Reads (read start) content a := by
  obtain ⟨-, hrun, hsize⟩ := sized_eq_ok_iff.mp h
  obtain ⟨content, hrest, hoffset, hreads⟩ := (hread c.offset).reads hrun
  exact ⟨content, hrest, hoffset, by omega, fun j hj start => hreads (j, start) hj⟩

theorem Carries.sized (hread : ∀ start, Carries (fun p : ι × Nat => fuel p.1) (read start)
      fun p => read p.2) (hshort : ∀ n, (short n).Belongs .parse)
    (hwrong : ∀ n, (wrong n).Belongs .parse) :
    Carries fuel (sized size short wrong read) fun _ => sized size short wrong read := by
  constructor
  · intro c c' a h
    obtain ⟨content, hrest, hoffset, hsize, hreads⟩ := reads_of_sized hread h
    exact ⟨content, hrest, hoffset, fun j hj => reads_sized hsize (hreads j hj)⟩
  · intro c e h
    rw [Reader.sized, bind_ok (r := Reader.offset) rfl, bind_ok (r := Reader.remaining) rfl] at h
    split at h
    · cases h
      exact hshort _
    · rcases bind_eq_error h with h | ⟨a, c₁, -, h⟩
      · exact (hread c.offset).errors h
      · rw [bind_ok (r := Reader.offset) rfl] at h
        dsimp only at h
        split at h
        · cases h
          exact hwrong _
        · cases h

/-- A chunk that is read, and its content alone. -/
theorem chunk_of_sized {short wrong : UInt32 → Nat → Error} {read : UInt32 → Nat → Reader α}
    (hread : ∀ n start, Carries (fun p : Nat × Nat => id p.1) (read n start) fun p => read n p.2)
    (h : (Reader.u32 >>= fun n => sized n.toNat (short n) (wrong n) (read n)) c = .ok (a, c')) :
    ∃ (k : Chunk) (n : UInt32), k.Sized ∧ c.rest = k.bytes ++ c'.rest ∧
      c'.offset = c.offset + k.bytes.length ∧ k.content.length = n.toNat ∧
      ∀ start, Reads (read n start) k.content a := by
  obtain ⟨n, c₁, hn, hrun⟩ := bind_eq_ok h
  obtain ⟨number, hrest, hoffset, hnumber⟩ := carries_u32.consumes hn
  obtain ⟨content, hrest', hoffset', hsize, hreads⟩ := reads_of_sized (hread n) hrun
  refine ⟨⟨number, content⟩, n, ⟨n, hnumber, hsize.symm⟩, ?_, ?_, hsize,
    hreads _ (Nat.lt_succ_self _)⟩
  · rw [hrest, hrest', Chunk.bytes, List.append_assoc]
  · rw [hoffset', hoffset, Chunk.bytes, List.length_append, Nat.add_assoc]

/-! ### Bodies -/

theorem carries_codeContent : Carries fuel codeContent fun _ => codeContent :=
  (carries_list carries_locals).bind fun _ =>
    carries_guard (Error.belongs_parse (by decide)) fun _ =>
      carries_expr.bind fun _ => carries_pure _

theorem carries_code : Carries fuel Reader.code fun _ => Reader.code := by
  rw [code_eq]
  exact carries_u32.bind fun n => Carries.sized (fun _ => carries_codeContent)
    (parse_unexpectedEnd _) fun _ => Error.belongs_parse (by decide)

/-! ### Contents of sections -/

/-- The content of a section with the id is what the reader gives, put into the module. -/
structure Fills (id : UInt8) (r : Reader α) (put : α → Module → Module) : Prop where
  content : ∀ m, Reader.sectionContent id m = r >>= fun a => pure (put a m)
  carries : ∀ {ι : Type} {fuel : ι → Nat}, Carries fuel r fun _ => r
  only : ∀ a m, (put a m).only id = put a {}
  other : ∀ a m {id'}, id' ≠ id → (put a m).only id' = m.only id'
  customs : ∀ a m, (put a m).customs = m.customs

/-- Whether sections with the id have content that is known. -/
def Known (id : UInt8) : Prop :=
  id ≠ customId ∧ id ≤ lastId

theorem known_iff {id : UInt8} : Known id ↔ 1 ≤ id.toNat ∧ id.toNat ≤ 11 := by
  simp only [Known, customId, lastId, ne_eq, ← UInt8.toNat_inj, UInt8.le_iff_toNat_le,
    UInt8.reduceToNat]
  omega

theorem known_cases {id : UInt8} (h : Known id) : id = 1 ∨ id = 2 ∨ id = 3 ∨ id = 4 ∨ id = 5 ∨
    id = 6 ∨ id = 7 ∨ id = 8 ∨ id = 9 ∨ id = 10 ∨ id = 11 := by
  have h := known_iff.mp h
  simp only [← UInt8.toNat_inj, UInt8.reduceToNat]
  omega

theorem fills_of_known {id : UInt8} (h : Known id) :
    ∃ (α : Type) (r : Reader α) (put : α → Module → Module), Fills id r put := by
  rcases known_cases h with rfl | rfl | rfl | rfl | rfl | rfl | rfl | rfl | rfl | rfl | rfl
  · exact ⟨_, _, fun xs m => { m with types := xs }, fun _ => rfl, carries_list carries_funcType,
      fun _ _ => rfl, fun _ _ _ h => by simp [Module.only, h], fun _ _ => rfl⟩
  · exact ⟨_, _, fun xs m => { m with imports := xs }, fun _ => rfl, carries_list carries_imported,
      fun _ _ => rfl, fun _ _ _ h => by simp [Module.only, h], fun _ _ => rfl⟩
  · exact ⟨_, _, fun xs m => { m with functions := xs }, fun _ => rfl, carries_list carries_u32,
      fun _ _ => rfl, fun _ _ _ h => by simp [Module.only, h], fun _ _ => rfl⟩
  · exact ⟨_, _, fun xs m => { m with tables := xs }, fun _ => rfl, carries_list carries_tableType,
      fun _ _ => rfl, fun _ _ _ h => by simp [Module.only, h], fun _ _ => rfl⟩
  · exact ⟨_, _, fun xs m => { m with memories := xs }, fun _ => rfl, carries_list carries_limits,
      fun _ _ => rfl, fun _ _ _ h => by simp [Module.only, h], fun _ _ => rfl⟩
  · exact ⟨_, _, fun xs m => { m with globals := xs }, fun _ => rfl, carries_list carries_global,
      fun _ _ => rfl, fun _ _ _ h => by simp [Module.only, h], fun _ _ => rfl⟩
  · exact ⟨_, _, fun xs m => { m with exports := xs }, fun _ => rfl, carries_list carries_exported,
      fun _ _ => rfl, fun _ _ _ h => by simp [Module.only, h], fun _ _ => rfl⟩
  · exact ⟨_, _, fun f m => { m with start := some f }, fun _ => rfl, carries_u32,
      fun _ _ => rfl, fun _ _ _ h => by simp [Module.only, h], fun _ _ => rfl⟩
  · exact ⟨_, _, fun xs m => { m with elements := xs }, fun _ => rfl, carries_list carries_element,
      fun _ _ => rfl, fun _ _ _ h => by simp [Module.only, h], fun _ _ => rfl⟩
  · exact ⟨_, _, fun xs m => { m with codes := xs }, fun _ => rfl,
      carries_numberedList fun _ => carries_code.within _ _,
      fun _ _ => rfl, fun _ _ _ h => by simp [Module.only, h], fun _ _ => rfl⟩
  · exact ⟨_, _, fun xs m => { m with data := xs }, fun _ => rfl, carries_list carries_data,
      fun _ _ => rfl, fun _ _ _ h => by simp [Module.only, h], fun _ _ => rfl⟩

/-- A title, and opaque bytes to the end. -/
theorem custom_eq_ok {k : Custom} (h : Reader.custom (M := Reader) size c = .ok (k, c')) :
    ∃ title, Reads Reader.name title k.name ∧ c.rest = title ++ k.bytes ++ c'.rest ∧
      c'.offset = c.offset + (title ++ k.bytes).length ∧ (title ++ k.bytes).length = size := by
  obtain ⟨start, c₁, hstart, h⟩ := bind_eq_ok h
  obtain ⟨name, c₂, hname, h⟩ := bind_eq_ok h
  obtain ⟨stop, c₃, hstop, h⟩ := bind_eq_ok h
  cases hstart
  cases hstop
  obtain ⟨title, hrest, hoffset, hreads⟩ := carries_name.consumes (within_eq_ok hname)
  dsimp only at h
  split at h
  · cases h
  · next hle =>
    obtain ⟨bs, c₄, hbs, h⟩ := bind_eq_ok h
    cases h
    obtain ⟨hrest', hoffset', hlength⟩ := bytesOf_eq_ok hbs
    refine ⟨title, hreads, ?_, ?_, ?_⟩
    · rw [hrest, hrest', List.append_assoc]
    · rw [hoffset', hoffset, List.length_append, Nat.add_assoc]
    · rw [List.length_append]
      dsimp only
      omega

theorem carries_custom (size : Nat) :
    Carries fuel (Reader.custom size) fun _ => Reader.custom size := by
  constructor
  · intro c c' k h
    obtain ⟨title, hname, hrest, hoffset, hsize⟩ := custom_eq_ok h
    exact ⟨title ++ k.bytes, hrest, hoffset, fun _ _ => reads_custom_of_name hname hsize⟩
  · intro c e h
    simp only [Reader.custom, monadLift_self] at h
    rw [bind_ok (r := Reader.offset) rfl] at h
    rcases bind_eq_error h with h | ⟨name, c₁, -, h⟩
    · obtain ⟨e', he, rfl⟩ := within_eq_error h
      exact (carries_name.parse he).context _
    · rw [bind_ok (r := Reader.offset) rfl] at h
      split at h
      · cases h
        exact Error.belongs_parse (by decide)
      · exact ((carries_bytesOf _ _).bind fun bs => carries_pure _).parse h

/-! ### Sections -/

/-- Sections without known content are refused. -/
theorem sectionContent_of_unknown {M : Type → Type} [Monad M] [MonadExcept Error M]
    [MonadLiftT Reader M] [Recorder M] {id : UInt8} (hid : ¬Known id) (m : Module) :
    (Reader.sectionContent id m : M Module) =
      liftM Reader.offset >>= fun start => throw (unknownSection id start) := by
  rw [known_iff] at hid
  unfold Reader.sectionContent
  split
  case h_12 => rfl
  all_goals omega

theorem carries_sectionContent (id : UInt8) (m : Module) :
    Carries fuel (Reader.sectionContent id m) fun _ => Reader.sectionContent id m := by
  by_cases hid : Known id
  · obtain ⟨α, r, put, h⟩ := fills_of_known hid
    rw [h.content]
    exact h.carries.bind fun _ => carries_pure _
  · rw [sectionContent_of_unknown hid]
    exact carries_offset fun _ => carries_throw (Error.belongs_parse (by decide))

theorem sectionId_eq_ok {last id : UInt8} (h : sectionId last c = .ok (id, c')) :
    c.rest = id :: c'.rest ∧ c'.offset = c.offset + 1 ∧ id ≤ lastId ∧
      (id = customId ∨ last < id) := by
  obtain ⟨header, c₁, hheader, h⟩ := bind_eq_ok h
  obtain ⟨b, c₂, hb, h⟩ := bind_eq_ok h
  cases hheader
  obtain ⟨offset, _ | ⟨_, rest⟩⟩ := c
  · cases hb
  · cases hb
    by_cases hunknown : lastId < b
    · rw [if_pos hunknown] at h
      cases h
    · rw [if_neg hunknown] at h
      by_cases horder : b ≠ customId ∧ b ≤ last
      · dsimp only at h
        rw [if_pos horder] at h
        cases h
      · dsimp only at h
        rw [if_neg horder] at h
        cases h
        refine ⟨rfl, rfl, UInt8.not_lt.mp hunknown, ?_⟩
        by_cases hid : id = customId
        · exact .inl hid
        · exact .inr (UInt8.not_le.mp fun hle => horder ⟨hid, hle⟩)

theorem carries_sectionId (last : UInt8) :
    Carries fuel (sectionId last) fun _ => sectionId last :=
  carries_offset fun _ => carries_byte.bind fun id =>
    carries_guard (Error.belongs_parse (by decide)) fun _ =>
      carries_guard (Error.belongs_parse (by decide)) fun _ => carries_pure id

theorem carries_sectionBody (id : UInt8) (m : Module) (size start : Nat) :
    Carries (fun p : ι × Nat => fuel p.1) (sectionBody id m size start)
      fun p => sectionBody id m size p.2 :=
  carries_ite (fun _ => (carries_custom size).bind fun _ => carries_pure _)
    fun _ => (carries_sectionContent id m).within _ _

theorem carries_oneSection (last : UInt8) (m : Module) :
    Carries fuel (Reader.oneSection last m) fun _ => Reader.oneSection last m := by
  rw [oneSection_eq]
  exact (carries_sectionId last).bind fun id => carries_u32.bind fun n =>
    (Carries.sized (carries_sectionBody id m n.toNat) (parse_unexpectedEnd _)
      fun _ => Error.belongs_parse (by decide)).bind fun _ => carries_pure _

/-- A section as it stands in the input. -/
structure Section where
  id : UInt8
  body : Chunk

/-- The bytes of a section. -/
def Section.bytes (s : Section) : List UInt8 :=
  s.id :: s.body.bytes

/-- The section comes after those with ids up to `last`, and turns a module into another. -/
structure Adds (last : UInt8) (m : Module) (s : Section) (last' : UInt8) (m' : Module) : Prop where
  id_le : s.id ≤ lastId
  order : s.id = customId ∨ last < s.id
  sized : s.body.Sized
  reads : Reads (Reader.oneSection last m) s.bytes (last', m')
  last_eq : last' = if s.id = customId then last else s.id
  body : ∀ start, Reads (sectionBody s.id m s.body.content.length start) s.body.content m'

theorem adds_of_oneSection {last last' : UInt8} {m m' : Module}
    (h : Reader.oneSection (M := Reader) last m c = .ok ((last', m'), c')) :
    ∃ s, Adds last m s last' m' ∧ c.rest = s.bytes ++ c'.rest := by
  obtain ⟨bytes, hbytes, -, hreads⟩ := (carries_oneSection last m).consumes h
  rw [oneSection_eq] at h
  obtain ⟨number, c₁, hid, h⟩ := bind_eq_ok h
  obtain ⟨hrest, -, hle, horder⟩ := sectionId_eq_ok hid
  rw [← bind_assoc] at h
  obtain ⟨m₁, c₂, hchunk, h⟩ := bind_eq_ok h
  cases h
  obtain ⟨k, n, hsized, hrest', -, hlength, hbody⟩ :=
    chunk_of_sized (fun n => carries_sectionBody number m n.toNat) hchunk
  have hrest : c.rest = (⟨number, k⟩ : Section).bytes ++ c'.rest := by
    rw [hrest, hrest']
    rfl
  obtain rfl := List.append_cancel_right (hbytes.symm.trans hrest)
  rw [← hlength] at hbody
  exact ⟨⟨number, k⟩, ⟨hle, horder, hsized, hreads, rfl, hbody⟩, hrest⟩

end Wasm.Binary
