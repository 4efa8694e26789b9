import Wasm.Proofs.Encoding.Reads

/-!
# Instructions read back

`reads_instrs`: a sequence of instructions that carry the operands of their opcodes reads back from
its bytes and the byte that closes it.  The reader takes fuel, and the number of bytes is enough of
it; an instruction takes less than the whole sequence, so the induction is on the instructions, with
the bound on the fuel carried along.
-/

namespace Wasm.Binary

/-! ### Operands -/

theorem reads_zeroByte (what : String) : Reads (Reader.zeroByte what) [0x00] () :=
  reads_offset fun _ => (reads_byte 0x00).bind_nil (reads_pure ())

/-- A signed number that is not negative does not start with the byte for the empty type. -/
theorem encodeSigned_eq_cons {n : Int} (h : 0 ≤ n) :
    ∃ b tail, Varint.encodeSigned n = b :: tail ∧ b ≠ 0x40 := by
  rw [Varint.encodeSigned]
  split
  · refine ⟨_, [], rfl, fun heq => ?_⟩
    have := congrArg UInt8.toNat heq
    rw [UInt8.toNat_ofNat'] at this
    simp at this
    omega
  · refine ⟨_, _, rfl, fun heq => ?_⟩
    have := congrArg UInt8.toNat heq
    rw [UInt8.toNat_ofNat'] at this
    simp at this
    omega

/-- The first byte of a type index is looked at and then read again. -/
theorem reads_blockType_index (i : UInt32) :
    Reads Reader.blockType (Varint.encodeSigned i.toNat) (.index i) := by
  intro offset rest
  have hlt : i.toNat < 2 ^ 32 := i.toNat_lt
  have hread := @reads_signed 33 i.toNat (by omega) (by omega) (by omega) offset rest
  obtain ⟨b, tail, hbytes, hb⟩ := encodeSigned_eq_cons (Int.natCast_nonneg i.toNat)
  have hpeek : Reader.peek ⟨offset, Varint.encodeSigned i.toNat ++ rest⟩ =
      .ok (b, ⟨offset, Varint.encodeSigned i.toNat ++ rest⟩) := by
    rw [hbytes]
    rfl
  simp only [Reader.blockType, monadLift_self]
  rw [bind_ok (r := Reader.offset) rfl, bind_ok hpeek, if_neg hb, bind_ok hread,
    if_pos (Int.natCast_nonneg _), Int.toNat_natCast, UInt32.ofNat_toNat]
  rfl

theorem reads_blockType (type : BlockType) :
    Reads Reader.blockType (Writer.blockType type) type := by
  cases type with
  | empty => exact fun _ _ => rfl
  | value t => cases t <;> exact fun _ _ => rfl
  | index i => exact reads_blockType_index i

theorem reads_immediate {op : Opcode} {imm : Immediate} (h : Instr.suits op imm = true)
    (hsize : (Writer.immediate op imm).length < 4294967296) :
    Reads (Reader.immediate op) (Writer.immediate op imm) imm := by
  cases imm with
  | none =>
    by_cases hzero : op = .memorySize ∨ op = .memoryGrow
    · rw [Writer.immediate, if_pos hzero]
      rcases hzero with rfl | rfl
      · exact (reads_zeroByte _).bind_nil (reads_pure _)
      · exact (reads_zeroByte _).bind_nil (reads_pure _)
    · rw [Writer.immediate, if_neg hzero]
      cases op <;> try (cases h; done)
      case memorySize | memoryGrow => simp at hzero
      all_goals exact reads_pure _
  | index i =>
    cases op <;> try (cases h; done)
    all_goals exact (reads_u32 i).bind_nil (reads_pure _)
  | typeIndex i =>
    cases op <;> try (cases h; done)
    exact (reads_u32 i).bind ((reads_zeroByte _).bind_nil (reads_pure _))
  | value v =>
    cases op <;> try cases h
    obtain rfl := beq_iff_eq.mp h
    cases v with
    | i32 bits => exact (reads_i32 bits).bind_nil (reads_pure _)
    | i64 bits => exact (reads_i64 bits).bind_nil (reads_pure _)
    | f32 bits => exact (reads_f32 bits).bind_nil (reads_pure _)
    | f64 bits => exact (reads_f64 bits).bind_nil (reads_pure _)
  | memArg arg =>
    cases op <;> try (cases h; done)
    all_goals exact (reads_u32 arg.align).bind ((reads_u32 arg.offset).bind_nil (reads_pure _))
  | labels table default =>
    cases op <;> try (cases h; done)
    rw [Writer.immediate, List.length_append] at hsize
    exact (reads_list u32_ne_nil (by omega) fun i _ _ => reads_u32 i).bind
      ((reads_u32 default).bind_nil (reads_pure _))
  | truncSat t =>
    cases op <;> try (cases h; done)
    refine reads_offset fun start => (reads_u32 t.code).bind_nil ?_
    rw [TruncSat.ofCode?_code]
    exact reads_pure _

/-! ### Sequences -/

/-- The byte that closes a sequence. -/
def Terminator.byte : Terminator → UInt8
  | endByte => Opcode.endByte
  | elseByte => Opcode.elseByte

/-- A sequence up to its end, or an opcode, an instruction and the rest. -/
theorem instrs_succ (fuel : Nat) : Reader.instrs (fuel + 1) = (do
    let start ← Reader.offset
    let b ← Reader.byte
    if b = Opcode.endByte then return ([], .endByte)
    if b = Opcode.elseByte then return ([], .elseByte)
    match Opcode.ofByte? b with
    | none => throw (unknownOpcode b start)
    | some op => do
      let i ← Reader.instrAfter (Reader.instrs fuel) op
      let p ← Reader.instrs fuel
      return (i :: p.1, p.2) : Reader (Expr × Terminator)) := by
  show (Reader.round (Reader.instrs fuel) >>= _) = _
  simp only [Reader.round, monadLift_self, bind_assoc]
  refine bind_congr fun start => bind_congr fun b => ?_
  by_cases hend : b = Opcode.endByte
  · rw [if_pos hend, if_pos hend]
    rfl
  · rw [if_neg hend, if_neg hend]
    by_cases helse : b = Opcode.elseByte
    · rw [if_pos helse, if_pos helse]
      rfl
    · rw [if_neg helse, if_neg helse]
      cases Opcode.ofByte? b with
      | none => rfl
      | some op => simp only [bind_assoc, pure_bind]

/-- A byte that closes a sequence is no opcode. -/
theorem byte_ne_terminator (op : Opcode) (t : Terminator) : op.byte ≠ t.byte := by
  intro h
  have hop := Opcode.ofByte?_byte op
  rw [h] at hop
  have hnone : Opcode.ofByte? t.byte = none := by
    cases t <;> decide +kernel
  exact absurd (hnone.symm.trans hop) (by simp)

theorem reads_instrs_nil (fuel : Nat) (t : Terminator) :
    Reads (Reader.instrs (fuel + 1)) [t.byte] ([], t) := by
  cases t <;> exact fun _ _ => rfl

/-- The first instruction of a sequence and then the rest. -/
theorem reads_instrs_cons {fuel : Nat} {op : Opcode} {i : Instr} {rest : Expr} {t : Terminator}
    {first others : List UInt8} (hfirst : Reads (Reader.instrAfter (Reader.instrs fuel) op) first i)
    (hrest : Reads (Reader.instrs fuel) others (rest, t)) :
    Reads (Reader.instrs (fuel + 1)) (op.byte :: first ++ others) (i :: rest, t) := by
  have hend : op.byte ≠ Opcode.endByte := byte_ne_terminator op .endByte
  have helse : op.byte ≠ Opcode.elseByte := byte_ne_terminator op .elseByte
  have h : Reads (Reader.instrAfter (Reader.instrs fuel) op >>= fun instr =>
      Reader.instrs fuel >>= fun p => pure (instr :: p.1, p.2)) (first ++ others) (i :: rest, t) :=
    hfirst.bind (hrest.bind_nil (reads_pure _))
  rw [instrs_succ]
  refine reads_offset fun start => (reads_byte op.byte).bind ?_
  rw [if_neg hend, if_neg helse, Opcode.ofByte?_byte]
  exact h

theorem reads_closedBy {sequence : Reader (Expr × Terminator)} {bytes : List UInt8} {e : Expr}
    (h : Reads sequence bytes (e, .endByte)) : Reads (Reader.closedBy sequence) bytes e :=
  reads_offset fun _ => h.bind_nil (reads_pure e)

theorem reads_instr_plain {op : Opcode} {imm : Immediate} {fuel : Nat}
    (h : Instr.suits op imm = true) (hsize : (Writer.immediate op imm).length < 4294967296) :
    Reads (Reader.instrAfter (Reader.instrs fuel) op) (Writer.immediate op imm) (.plain op imm) := by
  have hread := (reads_immediate h hsize).map (Instr.plain op)
  cases op
  case block | loop | ifElse => cases imm <;> cases h
  all_goals exact hread

theorem reads_instr_ifElse {fuel : Nat} {type : BlockType} {thenBody elseBody : Expr}
    {first others : List UInt8}
    (hthen : Reads (Reader.instrs fuel) first (thenBody, .elseByte))
    (helse : Reads (Reader.instrs fuel) others (elseBody, .endByte)) :
    Reads (Reader.instrAfter (Reader.instrs fuel) .ifElse)
      (Writer.blockType type ++ (first ++ others)) (.ifElse .ifElse type thenBody elseBody) :=
  (reads_blockType type).bind (hthen.bind ((reads_closedBy helse).bind_nil (reads_pure _)))

/-- An `if` without an `else` has an empty arm. -/
theorem reads_instr_if {fuel : Nat} {type : BlockType} {thenBody : Expr} {bytes : List UInt8}
    (hthen : Reads (Reader.instrs fuel) bytes (thenBody, .endByte)) :
    Reads (Reader.instrAfter (Reader.instrs fuel) .ifElse) (Writer.blockType type ++ bytes)
      (.ifElse .ifElse type thenBody []) :=
  (reads_blockType type).bind (hthen.bind_nil (reads_pure _))

mutual
/-- An instruction reads back from what follows its opcode. -/
theorem reads_instr {fuel : Nat} :
    ∀ {i : Instr}, Instr.Suited i → (Writer.instr i).length < 4294967296 →
      (Writer.instr i).length ≤ fuel →
      ∃ bytes, Writer.instr i = i.opcode.byte :: bytes ∧
        Reads (Reader.instrAfter (Reader.instrs fuel) i.opcode) bytes i
  | .plain op imm, .plain h, hsize, hfuel => by
    rw [Writer.instr, List.length_cons] at hsize
    have hread := @reads_instr_plain op imm fuel h (by omega)
    exact ⟨_, by rw [Writer.instr]; rfl, hread⟩
  | .block _ type body, .block h, hsize, hfuel => by
    simp only [Writer.instr, List.length_append, List.length_cons] at hsize hfuel
    have hbody := @reads_instrs fuel .endByte body h (by omega) (by omega)
    refine ⟨_, ?_, (reads_blockType type).bind ((reads_closedBy hbody).bind_nil (reads_pure _))⟩
    simp [Writer.instr, Instr.opcode, Terminator.byte]
  | .block _ type body, .loop h, hsize, hfuel => by
    simp only [Writer.instr, List.length_append, List.length_cons] at hsize hfuel
    have hbody := @reads_instrs fuel .endByte body h (by omega) (by omega)
    refine ⟨_, ?_, (reads_blockType type).bind ((reads_closedBy hbody).bind_nil (reads_pure _))⟩
    simp [Writer.instr, Instr.opcode, Terminator.byte]
  | .ifElse _ type thenBody elseBody, .ifElse ht he, hsize, hfuel => by
    cases elseBody with
    | nil =>
      simp only [Writer.instr, List.length_append, List.length_cons] at hsize hfuel
      have hthen := @reads_instrs fuel .endByte thenBody ht (by omega) (by omega)
      refine ⟨_, ?_, reads_instr_if hthen⟩
      simp [Writer.instr, Instr.opcode, Terminator.byte]
    | cons i rest =>
      simp only [Writer.instr, List.length_append, List.length_cons] at hsize hfuel
      have hthen := @reads_instrs fuel .elseByte thenBody ht (by omega) (by omega)
      have helse := @reads_instrs fuel .endByte (i :: rest) he
        (by rw [Writer.instrs, List.length_append]; omega)
        (by rw [Writer.instrs, List.length_append]; omega)
      refine ⟨_, ?_, reads_instr_ifElse hthen helse⟩
      simp [Writer.instr, Writer.instrs, Instr.opcode, Terminator.byte]

/-- A sequence of instructions reads back from its bytes and the byte that closes it. -/
theorem reads_instrs {fuel : Nat} {t : Terminator} :
    ∀ {e : Expr}, Instr.AllSuited e → (Writer.instrs e).length < 4294967296 →
      (Writer.instrs e).length < fuel →
      Reads (Reader.instrs fuel) (Writer.instrs e ++ [t.byte]) (e, t)
  | [], .nil, hsize, hfuel => by
    cases fuel with
    | zero => simp at hfuel
    | succ fuel => exact reads_instrs_nil fuel t
  | i :: rest, .cons h hr, hsize, hfuel => by
    cases fuel with
    | zero => simp at hfuel
    | succ fuel =>
      rw [Writer.instrs, List.length_append] at hsize hfuel
      obtain ⟨bytes, hbytes, hread⟩ := @reads_instr fuel i h (by omega) (by omega)
      have hpos : 0 < (Writer.instr i).length := by
        rw [hbytes]
        simp
      rw [Writer.instrs, hbytes, List.append_assoc]
      exact reads_instrs_cons hread (reads_instrs hr (by omega) (by omega))
end

/-- A sequence reads back from its bytes and its `end`. -/
theorem reads_expr {e : Expr} (h : Instr.AllSuited e)
    (hsize : (Writer.expr e).length < 4294967296) : Reads Reader.expr (Writer.expr e) e := by
  rw [Writer.expr, List.length_append] at hsize
  intro offset rest
  show (Reader.remaining >>= fun left => Reader.closedBy (Reader.instrs (left + 1))) _ = _
  rw [bind_ok (r := Reader.remaining) rfl]
  refine reads_closedBy (reads_instrs h (by omega) ?_) offset rest
  rw [Writer.expr, List.length_append, List.length_append]
  omega

end Wasm.Binary
