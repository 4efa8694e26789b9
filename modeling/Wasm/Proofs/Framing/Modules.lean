import Wasm.Proofs.Framing.Sections

/-!
# Accepted inputs are framed

An input is accepted exactly if it is the header and sections that can be read one after another
(`decode_eq_ok_iff`).  Each of these fills a field that no other one touches, or adds to the custom
sections.  A section is read from its bytes alone, so of two ways to go on from one place only one
fits the input; hence a part of an accepted input is accepted only if it stops where a section does.
-/

namespace Wasm.Binary

variable {α : Type} {r : Reader α} {a : α} {bytes bytes' rest : List UInt8}

/-- The reader takes the whole of a buffer that holds no other bytes. -/
def Alone (r : Reader α) (bytes : List UInt8) (a : α) : Prop :=
  r (Cursor.start bytes) = .ok (a, ⟨bytes.length, []⟩)

theorem Reads.alone (h : Reads r bytes a) : Alone r bytes a := by
  have hrun := h 0 []
  rw [List.append_nil, Nat.zero_add] at hrun
  exact hrun

/-! ### One section -/

variable {last last' : UInt8} {m m' : Module} {s : Section}

/-- The custom section is a name and the bytes that follow it. -/
def Section.Holds (s : Section) (k : Custom) : Prop :=
  ∃ title, Reads Reader.name title k.name ∧ s.body.content = title ++ k.bytes

theorem Adds.custom (h : Adds last m s last' m') (hid : s.id = customId) :
    ∃ k, s.Holds k ∧ m' = { m with customs := m.customs ++ [k] } := by
  have hbody := (h.body 0).alone
  unfold Reader.sectionBody at hbody
  rw [if_pos hid] at hbody
  obtain ⟨k, c, hk, hrun⟩ := bind_eq_ok hbody
  cases hrun
  obtain ⟨title, hname, hrest, -⟩ := custom_eq_ok hk
  rw [List.append_nil] at hrest
  exact ⟨k, ⟨title, hname, hrest⟩, rfl⟩

/-- The content of a section would be the same without the rest of the input. -/
theorem Adds.content (h : Adds last m s last' m') (hid : s.id ≠ customId) :
    Alone (Reader.sectionContent s.id {}) s.body.content (m'.only s.id) ∧
      (∀ {id}, id ≠ s.id → m'.only id = m.only id) ∧ m'.customs = m.customs := by
  obtain ⟨α, r, put, hfills⟩ := fills_of_known ⟨hid, h.id_le⟩
  have hbody := (h.body 0).alone
  unfold Reader.sectionBody at hbody
  rw [if_neg hid] at hbody
  have hrun := within_eq_ok hbody
  rw [hfills.content] at hrun
  obtain ⟨a, c, ha, hput⟩ := bind_eq_ok hrun
  cases hput
  refine ⟨?_, fun hne => hfills.other a m hne, hfills.customs a m⟩
  rw [Alone, hfills.content, bind_ok ha, hfills.only]
  rfl

/-- A field stays that is not that of the section. -/
theorem Adds.only (h : Adds last m s last' m') {id : UInt8}
    (hne : s.id ≠ id) : m'.only id = m.only id := by
  by_cases hcustom : s.id = customId
  · obtain ⟨k, -, rfl⟩ := h.custom hcustom
    rfl
  · exact (h.content hcustom).2.1 hne.symm

/-! ### Bodies -/

/-- The chunk is a body, which could be read alone. -/
def Chunk.Holds (k : Chunk) (code : Code) : Prop :=
  k.Sized ∧ Alone Reader.codeContent k.content code

theorem chunk_of_code {c c' : Cursor} {code : Code}
    (h : Reader.code (M := Reader) c = .ok (code, c')) :
    ∃ k : Chunk, k.Holds code ∧ c.rest = k.bytes ++ c'.rest := by
  rw [code_eq] at h
  obtain ⟨k, n, hsized, hrest, -, -, hcode⟩ := chunk_of_sized (fun _ _ => carries_codeContent) h
  exact ⟨k, ⟨hsized, (hcode 0).alone⟩, hrest⟩

/-- Items that are read from chunks. -/
theorem chunks_of_items {read : Nat → Reader α} {P : Chunk → α → Prop}
    (h : ∀ {index : Nat} {c c' : Cursor} {a : α}, read index c = .ok (a, c') →
      ∃ k, P k a ∧ c.rest = k.bytes ++ c'.rest) {count index : Nat} {c c' : Cursor} {items : List α}
    (hitems : Reader.items read count index c = .ok (items, c')) :
    ∃ ks, List.Forall₂ P ks items ∧ ks.length = count ∧
      c.rest = ks.flatMap Chunk.bytes ++ c'.rest := by
  induction count generalizing index c items with
  | zero =>
    cases hitems
    exact ⟨[], .nil, rfl, rfl⟩
  | succ count ih =>
    obtain ⟨a, c₁, ha, hitems⟩ := bind_eq_ok hitems
    obtain ⟨items, c₂, hothers, hitems⟩ := bind_eq_ok hitems
    cases hitems
    obtain ⟨k, hk, hrest⟩ := h ha
    obtain ⟨ks, hks, hlength, hrest'⟩ := ih hothers
    refine ⟨k :: ks, .cons hk hks, congrArg (· + 1) hlength, ?_⟩
    rw [hrest, hrest', List.flatMap_cons, List.append_assoc]

/-- The content of a code section is a number and that many bodies. -/
theorem bodies_of_alone {content : List UInt8}
    (h : Alone (Reader.sectionContent 10 {}) content m) :
    ∃ number n ks, Reads Reader.u32 number n ∧ n.toNat = ks.length ∧
      content = number ++ ks.flatMap Chunk.bytes ∧ List.Forall₂ Chunk.Holds ks m.codes := by
  obtain ⟨codes, c, hcodes, hrun⟩ := bind_eq_ok h
  cases hrun
  obtain ⟨n, c₁, hn, hitems⟩ := bind_eq_ok hcodes
  obtain ⟨number, hrest, -, hnumber⟩ := carries_u32.consumes hn
  obtain ⟨ks, hks, hlength, hrest'⟩ :=
    chunks_of_items (fun h => chunk_of_code (within_eq_ok h)) hitems
  refine ⟨number, n, ks, hnumber, hlength.symm, ?_, hks⟩
  rw [hrest', List.append_nil] at hrest
  exact hrest

/-! ### Sections one after another -/

/-- Sections that are read one after another, after those with ids up to some id. -/
inductive Run : (last : UInt8) → Module → List Section → Module → Prop
  | nil {last : UInt8} {m : Module} : Run last m [] m
  | cons {last last' : UInt8} {m m' m'' : Module} {s : Section} {sections : List Section} :
    Adds last m s last' m' → Run last' m' sections m'' → Run last m (s :: sections) m''

variable {sections : List Section} {m₀ : Module}

theorem Run.take (h : Run last m₀ sections m) (k : Nat) :
    ∃ m', Run last m₀ (sections.take k) m' := by
  induction h generalizing k with
  | nil => exact ⟨_, by rw [List.take_nil]; exact .nil⟩
  | cons hadds _ ih =>
    cases k with
    | zero => exact ⟨_, .nil⟩
    | succ k =>
      obtain ⟨m', hrun⟩ := ih k
      exact ⟨m', .cons hadds hrun⟩

/-- If what a run reads is part of what another one reads, it reads sections of the other. -/
theorem Run.of_isPrefix {sections' : List Section} (h : Run last m₀ sections m)
    (h' : Run last m₀ sections' m')
    (hpart : sections'.flatMap Section.bytes <+: sections.flatMap Section.bytes) :
    ∃ k, sections'.flatMap Section.bytes = (sections.take k).flatMap Section.bytes := by
  induction h' generalizing sections with
  | nil => exact ⟨0, rfl⟩
  | cons hadds' _ ih =>
    obtain ⟨after, hafter⟩ := hpart
    cases h with
    | nil => cases hafter
    | cons hadds hrun =>
      rw [List.flatMap_cons, List.flatMap_cons, List.append_assoc] at hafter
      obtain ⟨hbytes, hrest, hstate⟩ := hadds'.reads.unique hadds.reads hafter
      cases hstate
      obtain ⟨k, hk⟩ := ih hrun ⟨after, hrest⟩
      exact ⟨k + 1, by rw [List.take_succ_cons, List.flatMap_cons, List.flatMap_cons, hbytes, hk]⟩

/-- Sections with content come in the order of their ids. -/
theorem Run.increasing (h : Run last m₀ sections m) :
    (last :: (sections.map Section.id).filter (· ≠ customId)).Pairwise (· < ·) := by
  induction h with
  | nil => exact List.pairwise_singleton ..
  | @cons last last' m m' m'' s sections hadds _ ih =>
    have hlast := hadds.last_eq
    by_cases hid : s.id = customId
    · rw [if_pos hid] at hlast
      simpa [hid, hlast] using ih
    · rw [if_neg hid] at hlast
      subst hlast
      have hlt : last < s.id := hadds.order.resolve_left hid
      have hfilter : ((s :: sections).map Section.id).filter (· ≠ customId) =
          s.id :: (sections.map Section.id).filter (· ≠ customId) := by simp [hid]
      rw [hfilter, List.pairwise_cons]
      refine ⟨fun id hmem => ?_, ih⟩
      rcases List.mem_cons.mp hmem with rfl | hmem
      · exact hlt
      · exact UInt8.lt_trans hlt ((List.pairwise_cons.mp ih).1 id hmem)

theorem Run.lt_of_mem (h : Run last m₀ sections m) (hs : s ∈ sections) (hid : s.id ≠ customId) :
    last < s.id := by
  refine (List.pairwise_cons.mp h.increasing).1 s.id ?_
  rw [List.mem_filter]
  exact ⟨List.mem_map_of_mem hs, by simpa using hid⟩

theorem Run.sized (h : Run last m₀ sections m) : ∀ s ∈ sections, s.id ≤ lastId ∧ s.body.Sized := by
  induction h with
  | nil => exact fun s hs => absurd hs List.not_mem_nil
  | cons hadds _ ih => exact List.forall_mem_cons.mpr ⟨⟨hadds.id_le, hadds.sized⟩, ih⟩

/-- A field stays if there is no section for it. -/
theorem Run.only (h : Run last m₀ sections m) {id : UInt8} (hne : ∀ s ∈ sections, s.id ≠ id) :
    m.only id = m₀.only id := by
  induction h with
  | nil => rfl
  | cons hadds _ ih =>
    obtain ⟨hs, hne⟩ := List.forall_mem_cons.mp hne
    exact (ih hne).trans (hadds.only hs)

/-- A section decides what its field is, and could be read alone. -/
theorem Run.content (h : Run last m₀ sections m) : ∀ s ∈ sections, s.id ≠ customId →
    Alone (Reader.sectionContent s.id {}) s.body.content (m.only s.id) := by
  induction h with
  | nil => exact fun s hs => absurd hs List.not_mem_nil
  | @cons last last' m m' m'' s sections hadds hrun ih =>
    refine List.forall_mem_cons.mpr ⟨fun hid => ?_, ih⟩
    have hlast := hadds.last_eq
    rw [if_neg hid] at hlast
    subst hlast
    have hlater : ∀ t ∈ sections, t.id ≠ s.id := by
      intro t ht heq
      have hlt := hrun.lt_of_mem ht (heq ▸ hid)
      rw [heq] at hlt
      exact UInt8.lt_irrefl _ hlt
    rw [hrun.only hlater]
    exact (hadds.content hid).1

/-- The custom sections are listed in their order. -/
theorem Run.customs (h : Run last m₀ sections m) : ∃ ks, m.customs = m₀.customs ++ ks ∧
    List.Forall₂ Section.Holds (sections.filter fun s => s.id = customId) ks := by
  induction h with
  | nil => exact ⟨[], (List.append_nil _).symm, .nil⟩
  | @cons last last' m m' m'' s sections hadds _ ih =>
    obtain ⟨ks, hks, hholds⟩ := ih
    by_cases hid : s.id = customId
    · obtain ⟨k, hk, rfl⟩ := hadds.custom hid
      refine ⟨k :: ks, ?_, ?_⟩
      · rw [hks, List.append_assoc]
        rfl
      · rw [List.filter_cons_of_pos (by simpa using hid)]
        exact .cons hk hholds
    · refine ⟨ks, ?_, ?_⟩
      · rw [hks, (hadds.content hid).2.2]
      · rw [List.filter_cons_of_neg (by simpa using hid)]
        exact hholds

/-! ### Accepted inputs -/

theorem u32Fixed_eq_ok {c c' : Cursor} {n : UInt32} (h : Reader.u32Fixed c = .ok (n, c')) :
    c.rest = LittleEndian.encode 4 n.toNat ++ c'.rest := by
  unfold Reader.u32Fixed at h
  rw [map_eq_pure_bind] at h
  obtain ⟨bs, c₁, hbs, h⟩ := bind_eq_ok h
  cases h
  obtain ⟨hrest, -, hlength⟩ := bytesOf_eq_ok hbs
  have hlt := LittleEndian.decode_lt bs
  rw [hlength] at hlt
  rw [hrest, UInt32.toNat_ofNat_of_lt' hlt, ← hlength, LittleEndian.encode_decode]

theorem run_of_sections {fuel : Nat} {c c' : Cursor}
    (h : Reader.sections (M := Reader) fuel last m₀ c = .ok (m, c')) (hfuel : c.rest.length ≤ fuel) :
    ∃ sections, Run last m₀ sections m ∧ c.rest = sections.flatMap Section.bytes := by
  induction fuel generalizing last m₀ c with
  | zero =>
    cases h
    exact ⟨[], .nil, List.length_eq_zero_iff.mp (Nat.le_zero.mp hfuel)⟩
  | succ fuel ih =>
    simp only [Reader.sections, monadLift_self] at h
    rw [bind_ok (r := Reader.remaining) rfl] at h
    by_cases hend : c.rest.length = 0
    · rw [if_pos hend] at h
      cases h
      exact ⟨[], .nil, List.length_eq_zero_iff.mp hend⟩
    · rw [if_neg hend] at h
      obtain ⟨p, c₁, hone, h⟩ := bind_eq_ok h
      obtain ⟨s, hadds, hrest⟩ := adds_of_oneSection hone
      have hlength : c₁.rest.length ≤ fuel := by
        rw [hrest, Section.bytes, List.length_append, List.length_cons] at hfuel
        omega
      obtain ⟨sections, hrun, hrest'⟩ := ih h hlength
      exact ⟨s :: sections, .cons hadds hrun, by rw [hrest, hrest']; rfl⟩

theorem sections_of_run (h : Run last m₀ sections m) {fuel : Nat}
    (hfuel : (sections.flatMap Section.bytes).length ≤ fuel) (offset : Nat) :
    ∃ c, Reader.sections (M := Reader) fuel last m₀ ⟨offset, sections.flatMap Section.bytes⟩ =
      .ok (m, c) := by
  induction h generalizing fuel offset with
  | nil =>
    cases fuel with
    | zero => exact ⟨_, rfl⟩
    | succ fuel => exact ⟨_, rfl⟩
  | cons hadds _ ih =>
    rw [List.flatMap_cons, Section.bytes, List.length_append, List.length_cons] at hfuel
    cases fuel with
    | zero => omega
    | succ fuel =>
      rw [List.flatMap_cons, sections_cons hadds.reads (List.cons_ne_nil _ _)]
      exact ih (by omega) _

/-- An input is accepted if it is the header and sections that can be read one after another. -/
theorem decode_eq_ok_iff {input : List UInt8} : decode input = .ok m ↔
    ∃ sections, Run customId {} sections m ∧ input = header ++ sections.flatMap Section.bytes := by
  constructor
  · intro h
    obtain ⟨c, hmodule⟩ := module_of_decode h
    obtain ⟨found, c₁, hfound, hmodule⟩ := bind_eq_ok hmodule
    by_cases hmagic : found = magic
    · rw [if_neg (not_not_intro hmagic)] at hmodule
      obtain ⟨found', c₂, hfound', hmodule⟩ := bind_eq_ok hmodule
      by_cases hversion : found' = version
      · rw [if_neg (not_not_intro hversion)] at hmodule
        obtain ⟨left, c₃, hleft, hmodule⟩ := bind_eq_ok hmodule
        cases hleft
        obtain ⟨sections, hrun, hrest⟩ := run_of_sections hmodule (Nat.le_refl _)
        have hinput := u32Fixed_eq_ok hfound
        rw [u32Fixed_eq_ok hfound', hrest, hmagic, hversion, ← List.append_assoc] at hinput
        exact ⟨sections, hrun, hinput⟩
      · rw [if_pos hversion] at hmodule
        cases hmodule
    · rw [if_pos hmagic] at hmodule
      cases hmodule
  · rintro ⟨sections, hrun, rfl⟩
    obtain ⟨c, hsections⟩ := sections_of_run hrun (Nat.le_refl _) 8
    unfold decode
    rw [module_header, hsections]
    rfl

theorem parse_sections {fuel : Nat} {c : Cursor} {e : Error}
    (h : Reader.sections (M := Reader) fuel last m₀ c = .error e) : e.Belongs .parse := by
  induction fuel generalizing last m₀ c with
  | zero => cases h
  | succ fuel ih =>
    simp only [Reader.sections, monadLift_self] at h
    rw [bind_ok (r := Reader.remaining) rfl] at h
    by_cases hend : c.rest.length = 0
    · rw [if_pos hend] at h
      cases h
    · rw [if_neg hend] at h
      rcases bind_eq_error h with h | ⟨p, c₁, -, h⟩
      · exact (carries_oneSection _ _).parse h
      · exact ih h

/-- An input that is not accepted is not in the format. -/
theorem parse_decode {input : List UInt8} {e : Error} (h : decode input = .error e) :
    e.Belongs .parse := by
  unfold decode at h
  cases hmodule : Reader.module (M := Reader) (Cursor.start input) with
  | error e' =>
    rw [hmodule] at h
    cases h
    rcases bind_eq_error hmodule with h | ⟨found, c₁, -, h⟩
    · exact carries_u32Fixed.parse h
    · by_cases hmagic : found ≠ magic
      · rw [if_pos hmagic] at h
        cases h
        exact Error.belongs_parse (by decide)
      · rw [if_neg hmagic] at h
        rcases bind_eq_error h with h | ⟨found', c₂, -, h⟩
        · exact carries_u32Fixed.parse h
        · by_cases hversion : found' ≠ version
          · rw [if_pos hversion] at h
            cases h
            exact Error.belongs_parse (by decide)
          · rw [if_neg hversion] at h
            exact parse_sections h
  | ok p =>
    rw [hmodule] at h
    cases h

/-- The input is the header and the sections, and these make up the module. -/
structure Frames (input : List UInt8) (sections : List Section) (m : Module) : Prop where
  bytes : input = header ++ sections.flatMap Section.bytes
  sized : ∀ s ∈ sections, s.id ≤ lastId ∧ s.body.Sized
  increasing : ((sections.map Section.id).filter (· ≠ customId)).Pairwise (· < ·)
  content : ∀ s ∈ sections, s.id ≠ customId →
    Alone (Reader.sectionContent s.id {}) s.body.content (m.only s.id)
  bodies : ∀ s ∈ sections, s.id = 10 → ∃ number n ks, Reads Reader.u32 number n ∧
    n.toNat = ks.length ∧ s.body.content = number ++ ks.flatMap Chunk.bytes ∧
    List.Forall₂ Chunk.Holds ks m.codes
  absent : ∀ id, (∀ s ∈ sections, s.id ≠ id) → m.only id = {}
  customs : List.Forall₂ Section.Holds (sections.filter fun s => s.id = customId) m.customs

theorem Run.frames (h : Run customId {} sections m) :
    Frames (header ++ sections.flatMap Section.bytes) sections m where
  bytes := rfl
  sized := h.sized
  increasing := (List.pairwise_cons.mp h.increasing).2
  content := h.content
  bodies s hs hid := by
    have hcontent := h.content s hs (by rw [hid]; decide)
    rw [hid] at hcontent
    exact bodies_of_alone (m := m.only 10) hcontent
  absent id hne := (h.only hne).trans (by simp [Module.only])
  customs := by
    obtain ⟨ks, hks, hholds⟩ := h.customs
    rw [List.nil_append] at hks
    rwa [hks]

/-- **Accepted inputs are framed.**  The input is the header and sections; each has as many bytes as
it says and could be read alone.  A part of the input is accepted exactly if it stops where the
header or a section does. -/
theorem decode_framed {input : List UInt8} (h : decode input = .ok m) :
    ∃ sections, Frames input sections m ∧ ∀ part, part <+: input →
      ((∃ k, part = header ++ (sections.take k).flatMap Section.bytes) →
        ∃ m', decode part = .ok m') ∧
      ((¬ ∃ k, part = header ++ (sections.take k).flatMap Section.bytes) →
        ∃ e, decode part = .error e ∧ e.category = .parse) := by
  obtain ⟨sections, hrun, rfl⟩ := decode_eq_ok_iff.mp h
  refine ⟨sections, hrun.frames, fun part hpart => ⟨?_, fun hnone => ?_⟩⟩
  · rintro ⟨k, rfl⟩
    obtain ⟨m', htake⟩ := hrun.take k
    exact ⟨m', decode_eq_ok_iff.mpr ⟨_, htake, rfl⟩⟩
  · cases hdecode : decode part with
    | error e => exact ⟨e, rfl, (parse_decode hdecode).category⟩
    | ok m' =>
      obtain ⟨sections', hrun', rfl⟩ := decode_eq_ok_iff.mp hdecode
      have hpart' := (List.prefix_append_right_inj header).mp hpart
      obtain ⟨k, hk⟩ := hrun.of_isPrefix hrun' hpart'
      exact absurd ⟨k, congrArg (header ++ ·) hk⟩ hnone

/-- A custom section, and a type section whose size takes two bytes more than it has to. -/
theorem framed_padded_size :
    ∃ sections, Frames [0x00, 0x61, 0x73, 0x6d, 0x01, 0x00, 0x00, 0x00,
        0x00, 0x03, 0x01, 0x6e, 0xff, 0x01, 0x84, 0x80, 0x00, 0x01, 0x60, 0x00, 0x00]
      sections { types := [⟨[], []⟩], customs := [⟨"n", [0xff]⟩] } := by
  have hdecode : decode [0x00, 0x61, 0x73, 0x6d, 0x01, 0x00, 0x00, 0x00,
      0x00, 0x03, 0x01, 0x6e, 0xff, 0x01, 0x84, 0x80, 0x00, 0x01, 0x60, 0x00, 0x00] =
        .ok { types := [⟨[], []⟩], customs := [⟨"n", [0xff]⟩] } := rfl
  obtain ⟨sections, hframes, -⟩ := decode_framed hdecode
  exact ⟨sections, hframes⟩

end Wasm.Binary
