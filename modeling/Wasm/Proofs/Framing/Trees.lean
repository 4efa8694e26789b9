import Wasm.Proofs.Framing.Failures
import Wasm.Proofs.Framing.Modules
import Wasm.Proofs.Safety.Decoded

/-!
# Sequences of instructions delimit themselves

`Spells` is the grammar of instructions, with every way to write a number: an opcode, its operands,
and for a block also the body and the `end` that belongs to it.  The reader accepts a sequence from
the bytes that spell it and the `end` that follows them, and from no others (`expr_eq_ok_iff`).  Two
such sequences of bytes are never the beginning of one another, since what is accepted does not
depend on what follows, and a part of an accepted sequence is too short and nothing worse.
-/

namespace Wasm

/-- The number that stands for a block type: the low bits of a type byte as a negative number, or a
type index. -/
def BlockType.number : BlockType → Int
  | .empty => -0x40
  | .value t => (t.byte.toNat : Int) - 0x80
  | .index i => i.toNat

theorem ValueType.byte_of_ofByte? {b : UInt8} {t : ValueType} (h : ValueType.ofByte? b = some t) :
    t.byte = b := by
  unfold ValueType.ofByte? at h
  repeat' split at h
  all_goals cases h
  all_goals exact Eq.symm ‹_›

namespace Binary

open Reader (closedBy instrs instrAfter)

mutual
/-- The bytes of an instruction. -/
inductive Spells : Instr → List UInt8 → Prop where
  | plain {op : Opcode} {imm : Immediate} {operands : List UInt8} (hsuits : Instr.suits op imm = true)
      (hoperands : Reads (Reader.immediate op) operands imm) :
      Spells (.plain op imm) (op.byte :: operands)
  | block {op : Opcode} {type : BlockType} {body : Expr} {number bytes : List UInt8}
      (hop : op = .block ∨ op = .loop) (htype : Reads (Reader.signed 33) number type.number)
      (hbody : SpellsAll body bytes) :
      Spells (.block op type body) (op.byte :: (number ++ (bytes ++ [Opcode.endByte])))
  | ifThen {type : BlockType} {thenBody : Expr} {number bytes : List UInt8}
      (htype : Reads (Reader.signed 33) number type.number) (hthen : SpellsAll thenBody bytes) :
      Spells (.ifElse .ifElse type thenBody [])
        (Opcode.ifElse.byte :: (number ++ (bytes ++ [Opcode.endByte])))
  | ifElse {type : BlockType} {thenBody elseBody : Expr} {number bytes others : List UInt8}
      (htype : Reads (Reader.signed 33) number type.number) (hthen : SpellsAll thenBody bytes)
      (helse : SpellsAll elseBody others) :
      Spells (.ifElse .ifElse type thenBody elseBody) (Opcode.ifElse.byte ::
        (number ++ (bytes ++ [Opcode.elseByte] ++ (others ++ [Opcode.endByte]))))

/-- The bytes of instructions in a row, without the byte that closes them. -/
inductive SpellsAll : Expr → List UInt8 → Prop where
  | nil : SpellsAll [] []
  | cons {i : Instr} {rest : Expr} {first others : List UInt8} (h : Spells i first)
      (hr : SpellsAll rest others) : SpellsAll (i :: rest) (first ++ others)
end

mutual
theorem Spells.suited : ∀ {i : Instr} {bytes : List UInt8}, Spells i bytes → Instr.Suited i
  | _, _, .plain hsuits _ => .plain hsuits
  | _, _, .block hop _ hbody => by
    rcases hop with rfl | rfl
    · exact .block hbody.suited
    · exact .loop hbody.suited
  | _, _, .ifThen _ hthen => .ifElse hthen.suited .nil
  | _, _, .ifElse _ hthen helse => .ifElse hthen.suited helse.suited

theorem SpellsAll.suited :
    ∀ {e : Expr} {bytes : List UInt8}, SpellsAll e bytes → Instr.AllSuited e
  | _, _, .nil => .nil
  | _, _, .cons h hr => .cons h.suited hr.suited
end

/-! ### Block types -/

/-- A signed number has as many bits as its reader allows. -/
theorem decodeSigned_bounds {bits size : Nat} {n : Int} {bytes : List UInt8} (hbits : 0 < bits)
    (h : Varint.decodeSigned bits bytes = .ok (n, size)) :
    -2 ^ (bits - 1) ≤ n ∧ n < 2 ^ (bits - 1) := by
  induction bytes generalizing bits n size with
  | nil => cases h
  | cons b bytes ih =>
    have hgroup : -64 ≤ Varint.signedGroup b ∧ Varint.signedGroup b < 64 := by
      have hlt : Varint.group b < 128 := Nat.mod_lt _ (by decide)
      unfold Varint.signedGroup
      split <;> omega
    rw [Varint.decodeSigned] at h
    by_cases hlast : bits ≤ 7
    · rw [if_pos hlast] at h
      dsimp only at h
      split at h
      · cases h
      · next hfits =>
        cases h
        rw [Nat.one_shiftLeft] at hfits
        push_cast at hfits
        omega
    · rw [if_neg hlast] at h
      have hpow : (2 : Int) ^ (bits - 1) = 128 * 2 ^ (bits - 7 - 1) := by
        rw [show bits - 1 = bits - 7 - 1 + 7 by omega, Int.pow_add, Int.mul_comm]
        rfl
      by_cases hmore : Varint.continues b
      · rw [if_pos hmore] at h
        cases hrest : Varint.decodeSigned (bits - 7) bytes with
        | error e =>
          rw [hrest] at h
          cases h
        | ok p =>
          rw [hrest] at h
          cases h
          have hlt : Varint.group b < 128 := Nat.mod_lt _ (by decide)
          obtain ⟨hlo, hhi⟩ := ih (by omega) hrest
          omega
      · rw [if_neg hmore] at h
        cases h
        have hpos : (0 : Int) < 2 ^ (bits - 7 - 1) := Int.pow_pos (by decide)
        omega

theorem numberedBlockType_eq_ok_iff {start : Nat} {n : Int} {c c' : Cursor} {type : BlockType}
    (hn : n < 2 ^ 32) :
    numberedBlockType start n c = .ok (type, c') ↔ n = type.number ∧ c = c' := by
  constructor
  · intro h
    unfold numberedBlockType at h
    by_cases hpos : 0 ≤ n
    · rw [if_pos hpos] at h
      cases h
      refine ⟨?_, rfl⟩
      rw [BlockType.number, UInt32.toNat_ofNat_of_lt' (show n.toNat < 2 ^ 32 by omega)]
      omega
    · rw [if_neg hpos] at h
      by_cases hempty : n = -0x40
      · rw [if_pos hempty] at h
        cases h
        exact ⟨hempty, rfl⟩
      · rw [if_neg hempty] at h
        cases ht : ValueType.ofByte? (.ofNat (n + 0x80).toNat) with
        | none =>
          rw [ht] at h
          cases h
        | some t =>
          rw [ht] at h
          cases h
          refine ⟨?_, rfl⟩
          have hbyte := congrArg UInt8.toNat (ValueType.byte_of_ofByte? ht)
          rw [UInt8.toNat_ofNat_of_lt' (show (n + 0x80).toNat < 2 ^ 8 by omega)] at hbyte
          -- No type has the byte zero, so the number is not cut off below.
          have hbyte_pos : 0 < t.byte.toNat := by cases t <;> decide
          rw [BlockType.number]
          omega
  · rintro ⟨rfl, rfl⟩
    cases type with
    | empty => rfl
    | value t => cases t <;> rfl
    | index i =>
      rw [BlockType.number, numberedBlockType, if_pos (Int.natCast_nonneg _), Int.toNat_natCast,
        UInt32.ofNat_toNat]
      rfl

/-- A block type is read as the number that stands for it, and an index is not cut off. -/
theorem blockType_eq_ok_iff {c c' : Cursor} {type : BlockType} :
    Reader.blockType (M := Reader) c = .ok (type, c') ↔
      Reader.signed 33 c = .ok (type.number, c') := by
  rcases blockType_cases c.offset c with ⟨hrest, e, -, herror⟩ | hnumber
  · -- Both readers fail at the end of the input.
    obtain ⟨offset, rest⟩ := c
    cases hrest
    constructor
    · intro h
      cases herror.symm.trans h
    · intro h
      cases h
  · have hbound {n : Int} {c₁ : Cursor} (h : Reader.signed 33 c = .ok (n, c₁)) : n < 2 ^ 32 := by
      rw [Reader.signed] at h
      split at h
      · next hdecode =>
        cases h
        exact (decodeSigned_bounds (by decide) hdecode).2
      · cases h
    constructor
    · intro h
      obtain ⟨n, c₁, hn, hrun⟩ := bind_eq_ok (hnumber.symm.trans h)
      obtain ⟨rfl, rfl⟩ := (numberedBlockType_eq_ok_iff (hbound hn)).mp hrun
      exact hn
    · intro h
      refine hnumber.trans ?_
      rw [bind_ok h]
      exact (numberedBlockType_eq_ok_iff (hbound h)).mpr ⟨rfl, rfl⟩

theorem reads_blockType_iff {number : List UInt8} {type : BlockType} :
    Reads Reader.blockType number type ↔ Reads (Reader.signed 33) number type.number :=
  forall_congr' fun _ => forall_congr' fun _ => blockType_eq_ok_iff

/-! ### What is read is spelled -/

/-- Whatever the reader gives and whichever bytes it consumes, the condition holds. -/
def Takes {α : Type} (r : Reader α) (P : α → List UInt8 → Prop) : Prop :=
  ∀ ⦃c c' : Cursor⦄ ⦃a : α⦄, r c = .ok (a, c') → ∃ bytes, c.rest = bytes ++ c'.rest ∧ P a bytes

variable {α β : Type} {r : Reader α} {f : α → Reader β}

theorem Takes.bind {P : α → List UInt8 → Prop} {Q : β → List UInt8 → Prop} (hr : Takes r P)
    (hf : ∀ ⦃a first⦄, P a first → Takes (f a) fun b others => Q b (first ++ others)) :
    Takes (r >>= f) Q := by
  intro c c' b h
  obtain ⟨a, c₁, hfirst, hsecond⟩ := bind_eq_ok h
  obtain ⟨first, hrest, hP⟩ := hr hfirst
  obtain ⟨others, hrest', hQ⟩ := hf hP hsecond
  refine ⟨first ++ others, ?_, hQ⟩
  rw [hrest, hrest', List.append_assoc]

theorem takes_pure {a : α} {P : α → List UInt8 → Prop} (h : P a []) : Takes (pure a) P := by
  intro c c' a' heq
  cases heq
  exact ⟨[], rfl, h⟩

theorem takes_throw {e : Error} {P : α → List UInt8 → Prop} : Takes (throw e) P :=
  fun _ _ _ h => nomatch h

theorem takes_offset {f : Nat → Reader β} {P : β → List UInt8 → Prop} (h : ∀ n, Takes (f n) P) :
    Takes (Reader.offset >>= f) P :=
  fun c _ _ hrun => h c.offset hrun

theorem takes_byte : Takes Reader.byte fun b bytes => bytes = [b] := by
  rintro ⟨offset, _ | ⟨b, rest⟩⟩ c' a h
  · cases h
  · cases h
    exact ⟨[b], rfl, rfl⟩

theorem Carries.takes (h : Carries id r fun _ => r) : Takes r fun a bytes => Reads r bytes a := by
  intro c c' a hrun
  obtain ⟨bytes, hrest, -, hreads⟩ := h.consumes hrun
  exact ⟨bytes, hrest, hreads⟩

theorem takes_blockType :
    Takes Reader.blockType fun type number => Reads (Reader.signed 33) number type.number := by
  intro c c' type h
  obtain ⟨number, hrest, hreads⟩ := carries_blockType.takes h
  exact ⟨number, hrest, reads_blockType_iff.mp hreads⟩

/-- A sequence and the byte that closes it. -/
def Closed (p : Expr × Terminator) (bytes : List UInt8) : Prop :=
  ∃ body, SpellsAll p.1 body ∧ bytes = body ++ [p.2.byte]

theorem takes_closedBy {r : Reader (Expr × Terminator)} (h : Takes r Closed) :
    Takes (closedBy r) fun e bytes => Closed (e, .endByte) bytes := by
  refine takes_offset fun start => h.bind fun p bytes hp => ?_
  obtain ⟨e, t⟩ := p
  cases t with
  | endByte =>
    refine takes_pure ?_
    rw [List.append_nil]
    exact hp
  | elseByte => exact takes_throw

theorem takes_immediate {op : Opcode} (hplain : op ≠ .block ∧ op ≠ .loop ∧ op ≠ .ifElse) :
    Takes (Instr.plain op <$> Reader.immediate op)
      fun i operands => Spells i (op.byte :: operands) := by
  rw [map_eq_pure_bind]
  intro c c' i h
  obtain ⟨imm, c₁, himm, hrun⟩ := bind_eq_ok h
  cases hrun
  obtain ⟨-, -, hsuits⟩ := spans_immediate hplain himm
  obtain ⟨operands, hrest, hreads⟩ := (carries_immediate op).takes himm
  exact ⟨operands, hrest, .plain hsuits hreads⟩

theorem takes_instrAfter {fuel : Nat} (op : Opcode) (h : Takes (instrs fuel) Closed) :
    Takes (instrAfter (instrs fuel) op) fun i bytes => Spells i (op.byte :: bytes) := by
  have hblock (op : Opcode) (hop : op = .block ∨ op = .loop) : Takes (do
      let type ← Reader.blockType
      let body ← closedBy (instrs fuel)
      pure (Instr.block op type body)) fun i bytes => Spells i (op.byte :: bytes) := by
    refine takes_blockType.bind fun type number htype => (takes_closedBy h).bind ?_
    rintro body bytes ⟨bytes, hbody, rfl⟩
    refine takes_pure ?_
    rw [List.append_nil]
    exact .block hop htype hbody
  cases op with
  | block => exact hblock _ (.inl rfl)
  | loop => exact hblock _ (.inr rfl)
  | ifElse =>
    refine takes_blockType.bind fun type number htype => h.bind ?_
    rintro ⟨thenBody, t⟩ bytes ⟨bytes, hthen, rfl⟩
    cases t with
    | elseByte =>
      refine (takes_closedBy h).bind ?_
      rintro elseBody others ⟨others, helse, rfl⟩
      refine takes_pure ?_
      rw [List.append_nil]
      exact .ifElse htype hthen helse
    | endByte =>
      refine takes_pure ?_
      rw [List.append_nil]
      exact .ifThen htype hthen
  | _ => exact takes_immediate (by simp)

theorem takes_instrs (fuel : Nat) : Takes (instrs fuel) Closed := by
  induction fuel with
  | zero => exact takes_offset fun start => takes_throw
  | succ fuel ih =>
    rw [instrs_succ]
    refine takes_offset fun start => takes_byte.bind ?_
    rintro b bytes rfl
    by_cases hend : b = Opcode.endByte
    · rw [if_pos hend]
      exact takes_pure ⟨[], .nil, by rw [hend]; rfl⟩
    · rw [if_neg hend]
      by_cases helse : b = Opcode.elseByte
      · rw [if_pos helse]
        exact takes_pure ⟨[], .nil, by rw [helse]; rfl⟩
      · rw [if_neg helse]
        cases hop : Opcode.ofByte? b with
        | none => exact takes_throw
        | some op =>
          obtain rfl := Opcode.byte_of_ofByte? hop
          refine (takes_instrAfter op ih).bind fun i bytes hi => ih.bind ?_
          rintro p others ⟨others, hrest, rfl⟩
          refine takes_pure ⟨op.byte :: bytes ++ others, .cons hi hrest, ?_⟩
          simp

/-! ### What is spelled is read -/

mutual
/-- The fuel has to reach as far as the bytes do. -/
theorem reads_of_spells (fuel : Nat) : ∀ {i : Instr} {bytes : List UInt8}, Spells i bytes →
    bytes.length ≤ fuel →
      ∃ tail, bytes = i.opcode.byte :: tail ∧ Reads (instrAfter (instrs fuel) i.opcode) tail i
  | _, _, @Spells.plain op imm _ hsuits hoperands, _ => by
    refine ⟨_, rfl, ?_⟩
    have hread := hoperands.map (Instr.plain op)
    cases op
    case block | loop | ifElse => cases imm <;> cases hsuits
    all_goals exact hread
  | _, _, .block hop htype hbody, hfuel => by
    simp only [List.length_cons, List.length_append] at hfuel
    have hread := reads_of_spellsAll fuel .endByte hbody (by omega)
    refine ⟨_, rfl, ?_⟩
    rcases hop with rfl | rfl
    · exact (reads_blockType_iff.mpr htype).bind ((reads_closedBy hread).bind_nil (reads_pure _))
    · exact (reads_blockType_iff.mpr htype).bind ((reads_closedBy hread).bind_nil (reads_pure _))
  | _, _, .ifThen htype hthen, hfuel => by
    simp only [List.length_cons, List.length_append] at hfuel
    have hread := reads_of_spellsAll fuel .endByte hthen (by omega)
    exact ⟨_, rfl, (reads_blockType_iff.mpr htype).bind (hread.bind_nil (reads_pure _))⟩
  | _, _, .ifElse htype hthen helse, hfuel => by
    simp only [List.length_cons, List.length_append] at hfuel
    have hread := reads_of_spellsAll fuel .elseByte hthen (by omega)
    have hread' := reads_of_spellsAll fuel .endByte helse (by omega)
    exact ⟨_, rfl, (reads_blockType_iff.mpr htype).bind
      (hread.bind ((reads_closedBy hread').bind_nil (reads_pure _)))⟩

theorem reads_of_spellsAll (fuel : Nat) (t : Terminator) : ∀ {e : Expr} {bytes : List UInt8},
    SpellsAll e bytes → bytes.length < fuel → Reads (instrs fuel) (bytes ++ [t.byte]) (e, t)
  | _, _, .nil, hfuel => by
    cases fuel with
    | zero => cases hfuel
    | succ fuel => exact reads_instrs_nil fuel t
  | _, _, .cons h hr, hfuel => by
    cases fuel with
    | zero => cases hfuel
    | succ fuel =>
      rw [List.length_append] at hfuel
      obtain ⟨tail, rfl, hread⟩ := reads_of_spells fuel h (by omega)
      rw [List.length_cons] at hfuel
      rw [List.append_assoc]
      exact reads_instrs_cons hread (reads_of_spellsAll fuel t hr (by omega))
end

/-! ### Sequences with their `end` -/

theorem reads_expr_of_spellsAll {e : Expr} {body : List UInt8} (h : SpellsAll e body) :
    Reads Reader.expr (body ++ [Opcode.endByte]) e := by
  intro offset rest
  rw [expr_eq]
  refine reads_closedBy (reads_of_spellsAll _ .endByte h ?_) offset rest
  simp only [List.length_append]
  omega

/-- The reader accepts exactly what the grammar allows. -/
theorem reads_expr_iff {e : Expr} {bytes : List UInt8} :
    Reads Reader.expr bytes e ↔ ∃ body, SpellsAll e body ∧ bytes = body ++ [Opcode.endByte] := by
  constructor
  · intro h
    have hrun := h 0 []
    rw [expr_eq] at hrun
    obtain ⟨bytes', hrest, hclosed⟩ := takes_closedBy (takes_instrs _) hrun
    rw [List.append_cancel_right hrest]
    exact hclosed
  · rintro ⟨body, hbody, rfl⟩
    exact reads_expr_of_spellsAll hbody

/-- A part of an accepted sequence ends too early. -/
theorem expr_of_isPrefix {e : Expr} {word part : List UInt8} (h : Reads Reader.expr word e)
    (hpart : part <+: word) (hne : part ≠ word) (offset : Nat) :
    ∃ err, Reader.expr ⟨offset, part⟩ = .error err ∧ err.code = Code.unexpectedEnd := by
  obtain ⟨more, rfl⟩ := hpart
  cases hrun : Reader.expr ⟨offset, part⟩ with
  | ok p =>
    -- The part would be accepted as the beginning of the whole.
    obtain ⟨bytes, hbytes, -, hreads⟩ := carries_expr.consumes hrun
    have heq : part ++ more ++ [] = bytes ++ (p.2.rest ++ more) := by
      rw [List.append_nil, ← List.append_assoc]
      exact congrArg (· ++ more) hbytes
    obtain ⟨-, hrest, -⟩ := h.unique hreads heq
    obtain ⟨-, rfl⟩ := List.append_eq_nil_iff.mp hrest.symm
    exact absurd (List.append_nil part).symm hne
  | error err =>
    refine ⟨err, rfl, ?_⟩
    have hfinal : Final (fun _ : Unit => (part ++ more).length + 1) Reader.expr
      fun _ => Reader.expr := final_expr
    rcases hfinal hrun with hend | hlonger
    · exact hend
    · obtain ⟨e', he'⟩ := hlonger () more (Nat.lt_succ_self _)
      have hok := h offset []
      rw [List.append_nil] at hok
      cases he'.symm.trans hok

/-- **A sequence with its `end` delimits itself.**  What the reader takes spells the sequence, with
the operands that its opcodes ask for, and ends with the `end` that no instruction inside it owns;
no opcode has a byte that closes a sequence.  Whatever follows, the same bytes give the same
sequence, and without the last of them the input ends too early. -/
theorem expr_self_delimiting {c c' : Cursor} {e : Expr} (h : Reader.expr c = .ok (e, c')) :
    ∃ word body, c.rest = word ++ c'.rest ∧ c'.offset = c.offset + word.length ∧
      word = body ++ [Opcode.endByte] ∧ SpellsAll e body ∧ Instr.AllSuited e ∧
      (∀ (op : Opcode) (t : Terminator), op.byte ≠ t.byte) ∧
      (∀ offset more,
        Reader.expr ⟨offset, word ++ more⟩ = .ok (e, ⟨offset + word.length, more⟩)) ∧
      ∀ offset part, part <+: word → part ≠ word →
        ∃ err, Reader.expr ⟨offset, part⟩ = .error err ∧ err.code = Code.unexpectedEnd := by
  obtain ⟨word, hrest, hoffset, hreads⟩ := carries_expr.consumes h
  obtain ⟨body, hbody, hword⟩ := reads_expr_iff.mp hreads
  refine ⟨word, body, hrest, hoffset, hword, hbody, hbody.suited, byte_ne_terminator, hreads, ?_⟩
  intro offset part hpart hne
  exact expr_of_isPrefix hreads hpart hne offset

/-- The byte of an `end` closes the arm of an `if` here, and is the number eleven before that; the
sequence itself still needs one. -/
theorem expr_without_end :
    Reader.expr ⟨0, [0x04, 0x40, 0x05, 0x41, 0x0b, 0x1a, 0x0b, 0x0b]⟩ =
        .ok ([.ifElse .ifElse .empty []
          [.plain (.const .i32) (.value (.i32 11)), .plain .drop .none]], ⟨8, []⟩) ∧
      ∃ err, Reader.expr ⟨0, [0x04, 0x40, 0x05, 0x41, 0x0b, 0x1a, 0x0b]⟩ = .error err ∧
        err.code = Code.unexpectedEnd := by
  have hrun : Reader.expr ⟨0, [0x04, 0x40, 0x05, 0x41, 0x0b, 0x1a, 0x0b, 0x0b]⟩ =
      .ok ([.ifElse .ifElse .empty []
        [.plain (.const .i32) (.value (.i32 11)), .plain .drop .none]], ⟨8, []⟩) := rfl
  obtain ⟨word, body, hrest, -, -, -, -, -, -, hpart⟩ := expr_self_delimiting hrun
  rw [List.append_nil] at hrest
  subst hrest
  exact ⟨hrun, hpart 0 _ (by decide) (by decide)⟩

end Binary

end Wasm
