import Wasm.Proofs.Encoding.Sections
import Wasm.Proofs.Execution.Control
import Wasm.Proofs.Framing.Grammar

/-!
# What decoding delivers

Bodies as the reader makes them: every instruction carries the operands of its opcode, and blocks
are not nested deeper than branches can reach.  A block takes at least one byte more than its body,
and the length of a body is a 32-bit number, so `Spans` keeps count of the bytes that are consumed.
-/

namespace Wasm.Binary

open Reader (closedBy instrs instrAfter)

/-- Whatever the reader gives and however many bytes it consumes, the condition holds. -/
def Spans {α : Type} (r : Reader α) (P : α → Nat → Prop) : Prop :=
  ∀ ⦃c c' : Cursor⦄ ⦃a : α⦄, r c = .ok (a, c') → ∃ n, c'.offset = c.offset + n ∧ P a n

/-- Whatever the reader gives, the condition holds. -/
def Gives {α : Type} (r : Reader α) (P : α → Prop) : Prop :=
  ∀ ⦃c c' : Cursor⦄ ⦃a : α⦄, r c = .ok (a, c') → P a

variable {α β : Type} {r : Reader α} {f : α → Reader β}

/-! ### Composition -/

theorem Spans.bind {P : α → Nat → Prop} {Q : β → Nat → Prop} (hr : Spans r P)
    (hf : ∀ ⦃a n⦄, P a n → Spans (f a) fun b k => Q b (n + k)) : Spans (r >>= f) Q := by
  intro c c' b h
  obtain ⟨a, c₁, hfirst, hsecond⟩ := bind_eq_ok h
  obtain ⟨n, hn, hP⟩ := hr hfirst
  obtain ⟨k, hk, hQ⟩ := hf hP hsecond
  exact ⟨n + k, by omega, hQ⟩

theorem spans_pure {a : α} {P : α → Nat → Prop} (h : P a 0) : Spans (pure a) P := by
  intro c c' a' heq
  cases heq
  exact ⟨0, rfl, h⟩

theorem spans_throw {e : Error} {P : α → Nat → Prop} : Spans (throw e) P :=
  fun _ _ _ h => nomatch h

theorem Spans.mono {P Q : α → Nat → Prop} (h : Spans r P) (hPQ : ∀ ⦃a n⦄, P a n → Q a n) :
    Spans r Q := by
  intro c c' a heq
  obtain ⟨n, hn, hP⟩ := h heq
  exact ⟨n, hn, hPQ hP⟩

theorem Spans.map {g : α → β} {P : α → Nat → Prop} {Q : β → Nat → Prop} (hr : Spans r P)
    (h : ∀ ⦃a n⦄, P a n → Q (g a) n) : Spans (g <$> r) Q := by
  rw [map_eq_pure_bind]
  exact hr.bind fun a n hP => spans_pure (h hP)

theorem Gives.bind {P : α → Prop} {Q : β → Prop} (hr : Gives r P)
    (hf : ∀ ⦃a⦄, P a → Gives (f a) Q) : Gives (r >>= f) Q := by
  intro c c' b h
  obtain ⟨a, c₁, hfirst, hsecond⟩ := bind_eq_ok h
  exact hf (hr hfirst) hsecond

theorem gives_true (r : Reader α) : Gives r fun _ => True :=
  fun _ _ _ _ => trivial

theorem gives_pure {a : α} {P : α → Prop} (h : P a) : Gives (pure a) P := by
  intro c c' a' heq
  cases heq
  exact h

theorem gives_throw {e : Error} {P : α → Prop} : Gives (throw e) P :=
  fun _ _ _ h => nomatch h

/-- A check that ends the reading. -/
theorem gives_guard {c : Prop} [Decidable c] {e : Error} {next : Unit → Reader α} {P : α → Prop}
    (h : Gives (next ()) P) : Gives (if c then throw e >>= next else next ()) P := by
  split
  · exact fun _ _ _ h => nomatch h
  · exact h

theorem Gives.within {P : α → Prop} (h : Gives r P) (outer : Unit → String) :
    Gives (Recorder.within outer r) P :=
  fun _ _ _ heq => h (within_eq_ok heq)

/-! ### Operands -/

/-- A reader that only goes forward. -/
abbrev Forward (r : Reader α) : Prop :=
  Spans r fun _ _ => True

theorem spans_offset : Spans Reader.offset fun _ n => n = 0 := by
  intro c c' a h
  cases h
  exact ⟨0, rfl, rfl⟩

theorem spans_remaining : Spans Reader.remaining fun _ n => n = 0 := by
  intro c c' a h
  cases h
  exact ⟨0, rfl, rfl⟩

theorem spans_byte : Spans Reader.byte fun _ n => n = 1 := by
  rintro ⟨offset, _ | ⟨b, rest⟩⟩ c' a h
  · cases h
  · cases h
    exact ⟨1, rfl, rfl⟩

/-- A reader that takes what it accepts from the bytes that it consumes goes forward. -/
theorem Carries.forward (h : Carries id r fun _ => r) : Forward r := by
  intro c c' a hrun
  obtain ⟨bytes, -, hoffset, -⟩ := h.consumes hrun
  exact ⟨bytes.length, hoffset, trivial⟩

/-- The operands that are read for an opcode suit it. -/
theorem spans_immediate {op : Opcode} (hplain : op ≠ .block ∧ op ≠ .loop ∧ op ≠ .ifElse) :
    Spans (Reader.immediate op) fun imm _ => Instr.suits op imm = true := by
  obtain ⟨hblock, hloop, hif⟩ := hplain
  cases op with
  | block => exact absurd rfl hblock
  | loop => exact absurd rfl hloop
  | ifElse => exact absurd rfl hif
  | br | brIf | call | localGet | localSet | localTee | globalGet | globalSet =>
    exact carries_u32.forward.bind fun _ _ _ => spans_pure rfl
  | brTable =>
    exact (carries_list carries_u32).forward.bind fun _ _ _ =>
      carries_u32.forward.bind fun _ _ _ => spans_pure rfl
  | callIndirect =>
    exact carries_u32.forward.bind fun _ _ _ =>
      (carries_zeroByte _).forward.bind fun _ _ _ => spans_pure rfl
  | memorySize | memoryGrow => exact (carries_zeroByte _).forward.bind fun _ _ _ => spans_pure rfl
  | load t | loadPart w p s | store t | storePart w p =>
    exact carries_u32.forward.bind fun _ _ _ => carries_u32.forward.bind fun _ _ _ => spans_pure rfl
  | truncSat =>
    refine spans_offset.bind fun _ _ _ => carries_u32.forward.bind fun code _ _ => ?_
    split
    · exact spans_pure rfl
    · exact spans_throw
  | const t =>
    cases t with
    | i32 => exact carries_i32.forward.bind fun _ _ _ => spans_pure rfl
    | i64 => exact carries_i64.forward.bind fun _ _ _ => spans_pure rfl
    | f32 => exact carries_f32.forward.bind fun _ _ _ => spans_pure rfl
    | f64 => exact carries_f64.forward.bind fun _ _ _ => spans_pure rfl
  | _ => exact spans_pure rfl

/-! ### Instructions -/

/-- A sequence in order: its operands suit, and it takes more bytes than it has blocks inside one
another. -/
def WellRead (e : Expr) (n : Nat) : Prop :=
  Instr.AllSuited e ∧ Expr.nesting e < n

theorem spans_closedBy {r : Reader (Expr × Terminator)} (h : Spans r fun p n => WellRead p.1 n) :
    Spans (closedBy r) WellRead := by
  refine spans_offset.bind fun start n hn => h.bind fun p k hp => ?_
  subst hn
  obtain ⟨e, t⟩ := p
  cases t with
  | endByte =>
    refine spans_pure ?_
    rw [Nat.zero_add, Nat.add_zero]
    exact hp
  | elseByte => exact spans_throw

theorem spans_instrAfter {fuel : Nat} (op : Opcode)
    (h : Spans (instrs fuel) fun p n => WellRead p.1 n) :
    Spans (instrAfter (instrs fuel) op) fun i n => Instr.Suited i ∧ i.nesting ≤ n := by
  have hblock (op : Opcode) (hop : op = .block ∨ op = .loop) : Spans (do
      let type ← Reader.blockType
      let body ← closedBy (instrs fuel)
      pure (Instr.block op type body)) fun i n => Instr.Suited i ∧ i.nesting ≤ n := by
    refine carries_blockType.forward.bind fun type n _ => (spans_closedBy h).bind fun body k hbody =>
      spans_pure ⟨?_, ?_⟩
    · rcases hop with rfl | rfl
      · exact .block hbody.1
      · exact .loop hbody.1
    · rw [Instr.nesting]
      have := hbody.2
      omega
  have hplain (hop : op ≠ .block ∧ op ≠ .loop ∧ op ≠ .ifElse) :
      Spans (Instr.plain op <$> Reader.immediate op) fun i n => Instr.Suited i ∧ i.nesting ≤ n :=
    (spans_immediate hop).map fun imm n himm => ⟨.plain himm, Nat.zero_le n⟩
  cases op with
  | block => exact hblock _ (.inl rfl)
  | loop => exact hblock _ (.inr rfl)
  | ifElse =>
    refine carries_blockType.forward.bind fun type n _ => h.bind fun p k hthen => ?_
    obtain ⟨thenBody, t⟩ := p
    cases t with
    | elseByte =>
      refine (spans_closedBy h).bind fun elseBody j helse => spans_pure ⟨.ifElse hthen.1 helse.1, ?_⟩
      rw [Instr.nesting]
      have := hthen.2
      have := helse.2
      dsimp only at *
      omega
    | endByte =>
      refine spans_pure ⟨.ifElse hthen.1 .nil, ?_⟩
      rw [Instr.nesting]
      have := hthen.2
      have hnil : Expr.nesting [] = 0 := rfl
      dsimp only at *
      omega
  | _ => exact hplain (by simp)

theorem spans_instrs (fuel : Nat) : Spans (instrs fuel) fun p n => WellRead p.1 n := by
  induction fuel with
  | zero => exact spans_offset.bind fun _ _ _ => spans_throw
  | succ fuel ih =>
    rw [instrs_succ]
    refine spans_offset.bind fun start n hn => spans_byte.bind fun b k hk => ?_
    subst hn hk
    by_cases hend : b = Opcode.endByte
    · rw [if_pos hend]
      exact spans_pure ⟨.nil, by decide⟩
    · rw [if_neg hend]
      by_cases helse : b = Opcode.elseByte
      · rw [if_pos helse]
        exact spans_pure ⟨.nil, by decide⟩
      · rw [if_neg helse]
        cases Opcode.ofByte? b with
        | none => exact spans_throw
        | some op =>
          refine (spans_instrAfter op ih).bind fun i n hi => ih.bind fun p k hp =>
            spans_pure ⟨.cons hi.1 hp.1, ?_⟩
          rw [Expr.nesting]
          have := hi.2
          have := hp.2
          omega

theorem spans_expr : Spans Reader.expr WellRead := by
  refine spans_remaining.bind fun left n hn => ?_
  subst hn
  refine (spans_closedBy (spans_instrs (left + 1))).mono fun e k he => ?_
  rw [Nat.zero_add]
  exact he

/-! ### Bodies -/

/-- A body as it is decoded. -/
structure CodeRead (code : Code) : Prop where
  suited : Instr.AllSuited code.body
  nesting : Expr.nesting code.body < 4294967296

theorem gives_code : Gives Reader.code CodeRead := by
  intro c c' code h
  simp only [Reader.code, monadLift_self, Reader.closedSequence_eq] at h
  obtain ⟨size, c₁, -, h⟩ := bind_eq_ok h
  obtain ⟨start, c₂, hstart, h⟩ := bind_eq_ok h
  obtain ⟨left, c₃, hleft, h⟩ := bind_eq_ok h
  cases hstart
  cases hleft
  split at h
  · cases h
  · obtain ⟨runs, c₄, hruns, h⟩ := bind_eq_ok h
    obtain ⟨n, hn, -⟩ := (carries_list carries_locals).forward hruns
    split at h
    · cases h
    · obtain ⟨body, c₅, hbody, h⟩ := bind_eq_ok h
      obtain ⟨k, hk, hsuited, hnesting⟩ := spans_expr hbody
      obtain ⟨stop, c₆, hstop, h⟩ := bind_eq_ok h
      cases hstop
      split at h
      · cases h
      · next hsize =>
        cases h
        -- The bytes of the body are part of what its size counts.
        have hlt : size.toNat < 4294967296 := size.toNat_lt
        exact ⟨hsuited, by dsimp only; omega⟩

/-! ### Modules -/

theorem gives_items {read : Nat → Reader α} {P : α → Prop} (h : ∀ index, Gives (read index) P)
    (count index : Nat) : Gives (Reader.items read count index) fun l => ∀ a ∈ l, P a := by
  induction count generalizing index with
  | zero => exact gives_pure fun _ h => nomatch h
  | succ count ih =>
    refine (h index).bind fun a ha => (ih (index + 1)).bind fun l hl => gives_pure ?_
    exact List.forall_mem_cons.mpr ⟨ha, hl⟩

theorem gives_numberedList {read : Nat → Reader α} {P : α → Prop}
    (h : ∀ index, Gives (read index) P) : Gives (Reader.numberedList read) fun l => ∀ a ∈ l, P a :=
  (gives_true Reader.u32).bind fun count _ => gives_items h count.toNat 0

/-- Every body of the module is as it is decoded. -/
def CodesRead (m : Module) : Prop :=
  ∀ code ∈ m.codes, CodeRead code

theorem gives_sectionContent (id : UInt8) {m : Module} (hm : CodesRead m) :
    Gives (Reader.sectionContent id m) CodesRead := by
  unfold Reader.sectionContent
  split
  case h_10 =>
    exact (gives_numberedList fun index => gives_code.within _).bind fun codes hcodes =>
      gives_pure hcodes
  case h_12 => exact (gives_true _).bind fun _ _ => gives_throw
  all_goals exact (gives_true _).bind fun _ _ => gives_pure hm

/-! Whatever no section takes away from the module read so far holds of the whole module. -/

section Sections

variable {P : Module → Prop}

theorem gives_oneSection
    (hcontent : ∀ (id : UInt8) {m : Module}, P m → Gives (Reader.sectionContent id m) P)
    (hcustom : ∀ {m : Module} (customs : List Custom), P m → P { m with customs := customs })
    (last : UInt8) {m : Module} (hm : P m) :
    Gives (Reader.oneSection last m) fun p => P p.2 := by
  refine (gives_true _).bind fun header _ => (gives_true _).bind fun id _ => ?_
  refine gives_guard (gives_guard ?_)
  refine (gives_true _).bind fun size _ => (gives_true _).bind fun start _ =>
    (gives_true _).bind fun left _ => gives_guard ?_
  dsimp only
  split
  · refine (gives_true _).bind fun c _ => ?_
    refine (gives_pure (hcustom (m.customs ++ [c]) hm)).bind fun m' hm' => ?_
    exact (gives_true _).bind fun stop _ => gives_guard (gives_pure hm')
  · refine ((hcontent id hm).within _).bind fun m' hm' => ?_
    exact (gives_true _).bind fun stop _ => gives_guard (gives_pure hm')

theorem gives_sections
    (hcontent : ∀ (id : UInt8) {m : Module}, P m → Gives (Reader.sectionContent id m) P)
    (hcustom : ∀ {m : Module} (customs : List Custom), P m → P { m with customs := customs })
    (fuel : Nat) (last : UInt8) {m : Module} (hm : P m) :
    Gives (Reader.sections fuel last m) P := by
  induction fuel generalizing last m with
  | zero => exact gives_pure hm
  | succ fuel ih =>
    refine (gives_true _).bind fun left _ => ?_
    split
    · exact gives_pure hm
    · exact (gives_oneSection hcontent hcustom last hm).bind fun p hp => ih p.1 hp

theorem of_decode
    (hcontent : ∀ (id : UInt8) {m : Module}, P m → Gives (Reader.sectionContent id m) P)
    (hcustom : ∀ {m : Module} (customs : List Custom), P m → P { m with customs := customs })
    (hempty : P {}) {input : List UInt8} {m : Module} (h : decode input = .ok m) : P m := by
  have hmodule : Gives Reader.module P :=
    (gives_true _).bind fun found _ => gives_guard ((gives_true _).bind fun found _ =>
      gives_guard ((gives_true _).bind fun left _ =>
        gives_sections hcontent hcustom left customId hempty))
  obtain ⟨c, hrun⟩ := module_of_decode h
  exact hmodule hrun

end Sections

/-- The bodies of a decoded module. -/
theorem codesRead_of_decode {input : List UInt8} {m : Module} (h : decode input = .ok m) :
    CodesRead m :=
  of_decode gives_sectionContent (fun _ hm => hm) (fun _ h => nomatch h) h

/-! ### Constants -/

/-- The initial values and the offsets of the module are as they are decoded. -/
structure ConstantsRead (m : Module) : Prop where
  globals : ∀ g ∈ m.globals, Instr.AllSuited g.init
  elements : ∀ e ∈ m.elements, Instr.AllSuited e.offset
  data : ∀ d ∈ m.data, Instr.AllSuited d.offset

theorem gives_expr : Gives Reader.expr Instr.AllSuited := by
  intro c c' e h
  obtain ⟨n, -, hsuited, -⟩ := spans_expr h
  exact hsuited

theorem gives_constants (id : UInt8) {m : Module} (hm : ConstantsRead m) :
    Gives (Reader.sectionContent id m) ConstantsRead := by
  unfold Reader.sectionContent
  split
  case h_6 =>
    have hglobal : Gives Reader.global fun g => Instr.AllSuited g.init :=
      (gives_true _).bind fun type _ => (gives_expr.within _).bind fun init hinit =>
        gives_pure hinit
    exact (gives_numberedList fun _ => hglobal).bind fun globals hglobals =>
      gives_pure ⟨hglobals, hm.elements, hm.data⟩
  case h_9 =>
    have helement : Gives Reader.element fun e => Instr.AllSuited e.offset :=
      (gives_true _).bind fun table _ => (gives_expr.within _).bind fun offset hoffset =>
        (gives_true _).bind fun funcs _ => gives_pure hoffset
    exact (gives_numberedList fun _ => helement).bind fun elements helements =>
      gives_pure ⟨hm.globals, helements, hm.data⟩
  case h_11 =>
    have hdata : Gives Reader.data fun d => Instr.AllSuited d.offset :=
      (gives_true _).bind fun memory _ => (gives_expr.within _).bind fun offset hoffset =>
        (gives_true _).bind fun length _ => (gives_true _).bind fun bytes _ => gives_pure hoffset
    exact (gives_numberedList fun _ => hdata).bind fun data hdata =>
      gives_pure ⟨hm.globals, hm.elements, hdata⟩
  case h_12 => exact (gives_true _).bind fun _ _ => gives_throw
  all_goals exact (gives_true _).bind fun _ _ => gives_pure ⟨hm.globals, hm.elements, hm.data⟩

/-- The constant expressions of a decoded module. -/
theorem constantsRead_of_decode {input : List UInt8} {m : Module} (h : decode input = .ok m) :
    ConstantsRead m :=
  of_decode gives_constants (fun _ hm => ⟨hm.globals, hm.elements, hm.data⟩)
    ⟨nofun, nofun, nofun⟩ h

end Wasm.Binary
