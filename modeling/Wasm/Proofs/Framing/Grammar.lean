import Wasm.Proofs.Framing.Carries

/-!
# The grammar reads from its own bytes

Every entry of a section, from the operands of an instruction to a whole data segment, takes what it
accepts from the bytes that it consumes.  An instruction takes at least one byte, so the fuel for a
sequence may be any that reaches as far as its bytes; the reader of a sequence with its `end` has
more than that.
-/

namespace Wasm.Binary

open Reader (closedBy instrs instrAfter)

variable {ι α β : Type} {fuel : ι → Nat}

/-! ### Operands -/

theorem parse_invalidTag {code : Nat} (hcode : Category.ofCode code = .parse) (what : String)
    (b : UInt8) (offset : Nat) : (invalidTag code what b offset).Belongs .parse :=
  Error.belongs_parse hcode

theorem carries_zeroByte (what : String) :
    Carries fuel (Reader.zeroByte what) fun _ => Reader.zeroByte what :=
  carries_offset fun _ => carries_byte.bind fun _ =>
    carries_ite (fun _ => carries_throw (parse_invalidTag (by decide) ..)) fun _ => carries_pure ()

/-- A block type that is written as a number. -/
def numberedBlockType (start : Nat) (n : Int) : Reader BlockType :=
  if 0 ≤ n then pure (.index (.ofNat n.toNat))
  else if n = -0x40 then pure .empty
  else match ValueType.ofByte? (.ofNat (n + 0x80).toNat) with
    | some t => pure (.value t)
    | none => throw (invalidBlockType n start)

/-- The byte for the empty block type is a number like any other. -/
theorem blockType_cases (start : Nat) (c : Cursor) :
    (c.rest = [] ∧ ∃ e, e.Belongs .parse ∧
      (Reader.peek >>= fun b => if b = 0x40 then Reader.byte >>= fun _ => pure BlockType.empty
        else Reader.signed 33 >>= numberedBlockType start) c = .error e) ∨
    (Reader.peek >>= fun b => if b = 0x40 then Reader.byte >>= fun _ => pure BlockType.empty
      else Reader.signed 33 >>= numberedBlockType start) c =
        (Reader.signed 33 >>= numberedBlockType start) c := by
  obtain ⟨offset, rest⟩ := c
  cases rest with
  | nil => exact .inl ⟨rfl, _, parse_unexpectedEnd "byte" offset, rfl⟩
  | cons b rest =>
    refine .inr ?_
    rw [bind_ok (r := Reader.peek) (a := b) rfl]
    by_cases hb : b = 0x40
    · subst hb
      have hnumber : Reader.signed 33 ⟨offset, 0x40 :: rest⟩ =
        .ok (-0x40, ⟨offset + 1, rest⟩) := rfl
      rw [if_pos rfl, bind_ok hnumber]
      rfl
    · rw [if_neg hb]

theorem carries_blockType : Carries fuel Reader.blockType fun _ => Reader.blockType := by
  have hnumber (start : Nat) : Carries (fun p : ι × Nat => fuel p.1)
      (Reader.signed 33 >>= numberedBlockType start)
      fun p => Reader.signed 33 >>= numberedBlockType p.2 := by
    refine (carries_signed 33 (Nat.succ_pos _)).bind fun n =>
      carries_ite (fun _ => carries_pure _) fun _ =>
        carries_ite (fun _ => carries_pure _) fun _ => ?_
    cases ValueType.ofByte? (.ofNat (n + 0x80).toNat) with
    | some t => exact carries_pure _
    | none => exact carries_throw (Error.belongs_parse (by decide))
  refine carries_offset fun start => (hnumber start).strict (fun c => ?_) fun {j c p} h => ?_
  · rcases blockType_cases start c with ⟨-, e, he, herror⟩ | heq
    · exact .inr ⟨e, herror, he⟩
    · exact .inl heq
  · rcases blockType_cases j.2 c with ⟨hrest, -⟩ | heq
    · obtain ⟨offset, rest⟩ := c
      cases hrest
      cases h
    · exact heq.trans h

/-- A number of some width as the operand. -/
theorem carries_operand {r : Reader α} (h : Carries fuel r fun _ => r) (f : α → Immediate) :
    Carries fuel (r >>= fun a => pure (f a)) fun _ => r >>= fun a => pure (f a) :=
  h.bind fun a => carries_pure (f a)

theorem carries_immediate (op : Opcode) :
    Carries fuel (Reader.immediate op) fun _ => Reader.immediate op := by
  cases op with
  | br | brIf | call | localGet | localSet | localTee | globalGet | globalSet =>
    exact carries_operand carries_u32 _
  | brTable => exact (carries_list carries_u32).bind fun _ => carries_operand carries_u32 _
  | callIndirect => exact carries_u32.bind fun _ => carries_operand (carries_zeroByte _) _
  | memorySize | memoryGrow => exact carries_operand (carries_zeroByte _) _
  | load t | loadPart w p s | store t | storePart w p =>
    exact carries_u32.bind fun _ => carries_operand carries_u32 _
  | truncSat =>
    refine carries_offset fun start => carries_u32.bind fun code => ?_
    cases TruncSat.ofCode? code with
    | some t => exact carries_pure _
    | none => exact carries_throw (Error.belongs_parse (by decide))
  | const t =>
    cases t with
    | i32 => exact carries_operand carries_i32 _
    | i64 => exact carries_operand carries_i64 _
    | f32 => exact carries_operand carries_f32 _
    | f64 => exact carries_operand carries_f64 _
  | _ => exact carries_pure _

/-! ### Instructions -/

theorem Carries.closedBy {r : Reader (Expr × Terminator)} {s : ι → Reader (Expr × Terminator)}
    (h : Carries fuel r s) : Carries fuel (closedBy r) fun j => closedBy (s j) := by
  refine carries_offset fun start => (h.reindex Prod.fst).bind fun p => ?_
  obtain ⟨e, t⟩ := p
  cases t with
  | endByte => exact carries_pure e
  | elseByte => exact carries_throw (Error.belongs_parse (by decide))

theorem carries_instrAfter {n : Nat} {k : ι → Nat} (op : Opcode)
    (h : Carries fuel (instrs n) fun j => instrs (k j)) :
    Carries fuel (instrAfter (instrs n) op) fun j => instrAfter (instrs (k j)) op := by
  cases op with
  | block | loop =>
    exact carries_blockType.bind fun type => h.closedBy.bind fun body => carries_pure _
  | ifElse =>
    refine carries_blockType.bind fun type => h.bind fun p => ?_
    obtain ⟨thenBody, t⟩ := p
    cases t with
    | elseByte => exact h.closedBy.bind fun elseBody => carries_pure _
    | endByte => exact carries_pure _
  | _ => exact (carries_immediate _).map _

theorem carries_instrs (n : Nat) : Carries id (instrs n) instrs := by
  induction n with
  | zero =>
    constructor
    · intro c c' a h
      cases h
    · intro c e h
      cases h
      exact parse_unexpectedEnd ..
  | succ n ih =>
    have hsucc : Carries (· + 1) (instrs (n + 1)) fun k => instrs (k + 1) := by
      simp only [instrs_succ]
      refine carries_offset fun start => carries_byte_bind fun b =>
        carries_ite (fun _ => carries_pure _) fun _ => carries_ite (fun _ => carries_pure _)
          fun _ => ?_
      cases Opcode.ofByte? b with
      | none => exact carries_throw (Error.belongs_parse (by decide))
      | some op =>
        exact (carries_instrAfter op (ih.reindex Prod.fst)).bind fun i =>
          (ih.reindex Prod.fst).bind fun p => carries_pure _
    refine ⟨fun h => ?_, hsucc.errors⟩
    obtain ⟨bytes, hrest, hoffset, hreads⟩ := hsucc.reads h
    refine ⟨bytes, hrest, hoffset, fun j hj => ?_⟩
    cases j with
    | zero => exact absurd hj (Nat.not_lt_zero _)
    | succ k => exact hreads k hj

theorem expr_eq (c : Cursor) :
    Reader.expr c = closedBy (M := Reader) (instrs (c.rest.length + 1)) c := by
  show (Reader.remaining >>= fun left => closedBy (instrs (left + 1))) c = _
  rw [bind_ok (r := Reader.remaining) rfl]

/-- The fuel of a sequence with its `end` is what is left of the input, so more than it takes. -/
theorem carries_expr : Carries fuel Reader.expr fun _ => Reader.expr := by
  constructor
  · intro c c' e h
    rw [expr_eq] at h
    obtain ⟨bytes, hrest, hoffset, hreads⟩ := (carries_instrs (c.rest.length + 1)).closedBy.reads h
    refine ⟨bytes, hrest, hoffset, fun _ _ offset rest => ?_⟩
    rw [expr_eq]
    refine hreads ((bytes ++ rest).length + 1) ?_ offset rest
    rw [List.length_append]
    exact Nat.lt_succ_of_le (Nat.le_add_right ..)
  · intro c e h
    rw [expr_eq] at h
    exact (carries_instrs (c.rest.length + 1)).closedBy.errors h

/-! ### Entries of sections -/

theorem carries_funcType : Carries fuel Reader.funcType fun _ => Reader.funcType :=
  carries_offset fun _ => carries_byte.bind fun _ =>
    carries_guard (parse_invalidTag (by decide) ..) fun _ =>
      (carries_list carries_valueType).bind fun _ =>
        (carries_list carries_valueType).bind fun _ => carries_pure _

theorem carries_limits : Carries fuel Reader.limits fun _ => Reader.limits := by
  refine carries_offset fun start => carries_byte.bind fun flag => ?_
  split
  · exact carries_u32.bind fun _ => carries_pure _
  · exact carries_u32.bind fun _ => carries_u32.bind fun _ => carries_pure _
  · exact carries_throw (parse_invalidTag (by decide) ..)

theorem carries_tableType : Carries fuel Reader.tableType fun _ => Reader.tableType :=
  carries_offset fun _ => carries_byte.bind fun _ =>
    carries_guard (parse_invalidTag (by decide) ..) fun _ =>
      carries_limits.bind fun _ => carries_pure _

theorem carries_globalType : Carries fuel Reader.globalType fun _ => Reader.globalType := by
  refine carries_valueType.bind fun type => carries_offset fun start => carries_byte.bind
    fun flag => ?_
  split
  · exact carries_pure _
  · exact carries_pure _
  · exact carries_throw (parse_invalidTag (by decide) ..)

theorem carries_imported : Carries fuel Reader.imported fun _ => Reader.imported := by
  refine carries_name.bind fun module => carries_name.bind fun member =>
    carries_offset fun start => carries_byte.bind fun kind => ?_
  dsimp only
  split
  · exact (carries_u32.map _).bind fun desc => carries_pure _
  · exact (carries_tableType.map _).bind fun desc => carries_pure _
  · exact (carries_limits.map _).bind fun desc => carries_pure _
  · exact (carries_globalType.map _).bind fun desc => carries_pure _
  · exact carries_throw (parse_invalidTag (by decide) ..)

theorem carries_exported : Carries fuel Reader.exported fun _ => Reader.exported := by
  refine carries_name.bind fun member => carries_offset fun start => carries_byte.bind
    fun kind => ?_
  have hindex (kind : ExternKind) : Carries (fun p : ι × Nat => fuel p.1)
      (Reader.u32 >>= fun index => pure (⟨member, kind, index⟩ : Export))
      fun _ => Reader.u32 >>= fun index => pure ⟨member, kind, index⟩ :=
    carries_u32.bind fun index => carries_pure _
  dsimp only
  split
  · exact hindex .func
  · exact hindex .table
  · exact hindex .memory
  · exact hindex .global
  · exact carries_throw (parse_invalidTag (by decide) ..)

theorem carries_global : Carries fuel Reader.global fun _ => Reader.global :=
  carries_globalType.bind fun _ => (carries_expr.within _ _).bind fun _ => carries_pure _

theorem carries_element : Carries fuel Reader.element fun _ => Reader.element :=
  carries_u32.bind fun _ => (carries_expr.within _ _).bind fun _ =>
    (carries_list carries_u32).bind fun _ => carries_pure _

theorem carries_data : Carries fuel Reader.data fun _ => Reader.data :=
  carries_u32.bind fun _ => (carries_expr.within _ _).bind fun _ => carries_u32.bind fun _ =>
    (carries_bytesOf _ _).bind fun _ => carries_pure _

theorem carries_locals : Carries fuel Reader.locals fun _ => Reader.locals :=
  carries_u32.bind fun _ => carries_valueType.bind fun _ => carries_pure _

end Wasm.Binary
