import Wasm.Proofs.Framing.Grammar

/-!
# Why reading fails

A reader fails either because its input has ended, and says so by the code of its failure, or
because of what it has read so far, and then it fails on every longer input as well.  `Final` says
this of a reader and a family of readers with other fuel, as `Carries` does for what they accept,
and follows the same grammar: where two readers stand in a row, the first one has accepted its bytes
when the second one fails, and accepts them again in the longer input.
-/

namespace Wasm.Binary

open Reader (closedBy instrs instrAfter)

/-- Where the reader `r` fails, its input has ended, or each of the readers `s` that has more fuel
than there are bytes fails on every longer input. -/
def Final {ι α : Type} (fuel : ι → Nat) (r : Reader α) (s : ι → Reader α) : Prop :=
  ∀ ⦃offset : Nat⦄ ⦃bytes : List UInt8⦄ ⦃e : Error⦄, r ⟨offset, bytes⟩ = .error e →
    e.code = Code.unexpectedEnd ∨ ∀ j more, (bytes ++ more).length < fuel j →
      ∃ e', s j ⟨offset, bytes ++ more⟩ = .error e'

variable {ι α β : Type} {fuel : ι → Nat} {r : Reader α} {s : ι → Reader α} {f : α → Reader β}
  {g : ι → α → Reader β}

/-! ### Composition -/

theorem bind_error_of {c : Cursor} {e : Error} (h : r c = .error e) (f : α → Reader β) :
    (r >>= f) c = .error e := by
  show (r c).bind _ = _
  rw [h]
  rfl

theorem Final.bind (hr : Final fuel r s) (hc : Carries fuel r s)
    (hf : ∀ a, Final fuel (f a) fun j => g j a) : Final fuel (r >>= f) fun j => s j >>= g j := by
  intro offset bytes e h
  rcases bind_eq_error h with hfirst | ⟨a, c, hfirst, hsecond⟩
  · rcases hr hfirst with hend | hlonger
    · exact .inl hend
    · refine .inr fun j more hj => ?_
      obtain ⟨e', he'⟩ := hlonger j more hj
      exact ⟨e', bind_error_of he' _⟩
  · obtain ⟨first, hrest, hoffset, hreads⟩ := hc.reads hfirst
    obtain ⟨offset', rest⟩ := c
    dsimp only at hrest hoffset
    rcases hf a hsecond with hend | hlonger
    · exact .inl hend
    · refine .inr fun j more hj => ?_
      -- The first reader takes the same bytes from the longer input.
      rw [hrest, List.append_assoc, List.length_append] at hj
      obtain ⟨e', he'⟩ := hlonger j more (by omega)
      refine ⟨e', ?_⟩
      dsimp only
      rw [hrest, List.append_assoc, bind_ok (hreads j (by omega) offset (rest ++ more)), ← hoffset]
      exact he'

theorem final_pure (a : α) : Final fuel (pure a) s := by
  intro offset bytes e h
  cases h

theorem final_throw (e : Error) (e' : ι → Error) :
    Final fuel (throw e : Reader α) fun j => throw (e' j) := by
  intro offset bytes e₁ h
  exact .inr fun j more _ => ⟨e' j, rfl⟩

theorem Final.map (hr : Final fuel r s) (hc : Carries fuel r s) (f : α → β) :
    Final fuel (f <$> r) fun j => f <$> s j := by
  simp only [map_eq_pure_bind]
  exact hr.bind hc fun a => final_pure (f a)

/-- The shorter and the longer input are read from the same place. -/
theorem final_offset {f : Nat → Reader β} {g : ι → Nat → Reader β}
    (h : ∀ n, Final fuel (f n) fun j => g j n) :
    Final fuel (Reader.offset >>= f) fun j => Reader.offset >>= g j := by
  intro offset bytes e hrun
  exact h offset hrun

theorem final_ite {c : Prop} [Decidable c] {r' : Reader α} {s' : ι → Reader α}
    (h : c → Final fuel r s) (h' : ¬ c → Final fuel r' s') :
    Final fuel (if c then r else r') fun j => if c then s j else s' j := by
  by_cases hc : c
  · simp only [if_pos hc]
    exact h hc
  · simp only [if_neg hc]
    exact h' hc

/-! ### Bytes and numbers -/

theorem final_byte : Final fuel Reader.byte fun _ => Reader.byte := by
  rintro offset (_ | ⟨b, rest⟩) e h
  · cases h
    exact .inl rfl
  · cases h

/-- After a byte there may be less fuel. -/
theorem final_byte_bind {f : UInt8 → Reader β} {g : ι → UInt8 → Reader β}
    (h : ∀ b, Final fuel (f b) fun j => g j b) :
    Final (fun j => fuel j + 1) (Reader.byte >>= f) fun j => Reader.byte >>= g j := by
  rintro offset (_ | ⟨b, rest⟩) e hrun
  · cases hrun
    exact .inl rfl
  · rcases h b hrun with hend | hlonger
    · exact .inl hend
    · refine .inr fun j more hj => ?_
      rw [List.cons_append, List.length_cons] at hj
      exact hlonger j more (Nat.lt_of_succ_lt_succ hj)

theorem final_bytesOf (what : String) (n : Nat) :
    Final fuel (Reader.bytesOf what n) fun _ => Reader.bytesOf what n := by
  intro offset bytes e h
  unfold Reader.bytesOf at h
  split at h
  · cases h
  · cases h
    exact .inl rfl

/-- Bytes that are too long for a number are too long in every longer input. -/
theorem final_number {value : List UInt8 → α} {range : Set α} {most : Nat}
    (hr : ∀ c, ReadsNumber r value range most c) : Final fuel r fun _ => r := by
  intro offset bytes e h
  rcases (hr ⟨offset, bytes⟩).code_of_error h with hcode | ⟨-, hstarts, hended⟩
  · exact .inl hcode
  · refine .inr fun _ more _ => ?_
    obtain ⟨e', he', -⟩ := (hr ⟨offset, bytes ++ more⟩).varintOverflow_iff.mpr
      (Varint.tooLong_append hstarts hended more)
    exact ⟨e', he'⟩

theorem final_unsigned (bits : Nat) (h : 0 < bits) :
    Final fuel (Reader.unsigned bits) fun _ => Reader.unsigned bits :=
  final_number (readsNumber_unsigned h)

theorem final_signed (bits : Nat) (h : 0 < bits) :
    Final fuel (Reader.signed bits) fun _ => Reader.signed bits :=
  final_number (readsNumber_signed h)

theorem final_u32 : Final fuel Reader.u32 fun _ => Reader.u32 :=
  (final_unsigned 32 (Nat.succ_pos _)).map (carries_unsigned 32 (Nat.succ_pos _)) _

theorem final_i32 : Final fuel Reader.i32 fun _ => Reader.i32 :=
  (final_signed 32 (Nat.succ_pos _)).map (carries_signed 32 (Nat.succ_pos _)) _

theorem final_i64 : Final fuel Reader.i64 fun _ => Reader.i64 :=
  (final_signed 64 (Nat.succ_pos _)).map (carries_signed 64 (Nat.succ_pos _)) _

/-! ### Operands -/

theorem final_items {read : Nat → Reader α}
    (hc : ∀ index, Carries fuel (read index) fun _ => read index)
    (h : ∀ index, Final fuel (read index) fun _ => read index) (count index : Nat) :
    Final fuel (Reader.items read count index) fun _ => Reader.items read count index := by
  induction count generalizing index with
  | zero => exact final_pure []
  | succ count ih =>
    refine (h index).bind (hc index) fun a => ?_
    exact (ih (index + 1)).bind (carries_items hc count (index + 1)) fun l => final_pure (a :: l)

theorem final_list {read : Reader α} (hc : Carries fuel read fun _ => read)
    (h : Final fuel read fun _ => read) :
    Final fuel (Reader.list read) fun _ => Reader.list read :=
  final_u32.bind carries_u32 fun count => final_items (fun _ => hc) (fun _ => h) count.toNat 0

theorem final_zeroByte (what : String) :
    Final fuel (Reader.zeroByte what) fun _ => Reader.zeroByte what := by
  refine final_offset fun start => final_byte.bind carries_byte fun b => ?_
  exact final_ite (fun _ => final_throw _ _) fun _ => final_pure ()

theorem final_numberedBlockType (start : Nat) (n : Int) :
    Final fuel (numberedBlockType start n) fun _ => numberedBlockType start n := by
  refine final_ite (fun _ => final_pure _) fun _ => final_ite (fun _ => final_pure _) fun _ => ?_
  cases ValueType.ofByte? (.ofNat (n + 0x80).toNat) with
  | some t => exact final_pure _
  | none => exact final_throw _ _

theorem final_blockType : Final fuel Reader.blockType fun _ => Reader.blockType := by
  refine final_offset fun start => ?_
  have hnumber : Final fuel (Reader.signed 33 >>= numberedBlockType start)
      fun _ => Reader.signed 33 >>= numberedBlockType start :=
    (final_signed 33 (Nat.succ_pos _)).bind (carries_signed 33 (Nat.succ_pos _)) fun n =>
      final_numberedBlockType start n
  rintro offset (_ | ⟨b, rest⟩) e h
  · cases h
    exact .inl rfl
  · -- With a byte to look at, the block type is a number, on the longer input too.
    have hpeek (more : List UInt8) := (blockType_cases start ⟨offset, b :: rest ++ more⟩).resolve_left
      fun hempty => absurd hempty.1 (List.cons_ne_nil b _)
    have hshort := hpeek []
    rw [List.append_nil] at hshort
    rcases hnumber (hshort.symm.trans h) with hend | hlonger
    · exact .inl hend
    · refine .inr fun j more hj => ?_
      obtain ⟨e', he'⟩ := hlonger j more hj
      exact ⟨e', (hpeek more).trans he'⟩

/-- A number of some width as the operand. -/
theorem final_operand {r : Reader α} (hc : Carries fuel r fun _ => r)
    (h : Final fuel r fun _ => r) (f : α → Immediate) :
    Final fuel (r >>= fun a => pure (f a)) fun _ => r >>= fun a => pure (f a) :=
  h.bind hc fun a => final_pure (f a)

theorem final_immediate (op : Opcode) :
    Final fuel (Reader.immediate op) fun _ => Reader.immediate op := by
  cases op with
  | br | brIf | call | localGet | localSet | localTee | globalGet | globalSet =>
    exact final_operand carries_u32 final_u32 _
  | brTable =>
    exact (final_list carries_u32 final_u32).bind (carries_list carries_u32) fun _ =>
      final_operand carries_u32 final_u32 _
  | callIndirect =>
    exact final_u32.bind carries_u32 fun _ => final_operand (carries_zeroByte _) (final_zeroByte _) _
  | memorySize | memoryGrow => exact final_operand (carries_zeroByte _) (final_zeroByte _) _
  | load t | loadPart w p s | store t | storePart w p =>
    exact final_u32.bind carries_u32 fun _ => final_operand carries_u32 final_u32 _
  | truncSat =>
    refine final_offset fun start => final_u32.bind carries_u32 fun code => ?_
    cases TruncSat.ofCode? code with
    | some t => exact final_pure _
    | none => exact final_throw _ _
  | const t =>
    cases t with
    | i32 => exact final_operand carries_i32 final_i32 _
    | i64 => exact final_operand carries_i64 final_i64 _
    | f32 => exact final_operand carries_f32 ((final_bytesOf "f32" 4).map (carries_bytesOf _ 4) _) _
    | f64 => exact final_operand carries_f64 ((final_bytesOf "f64" 8).map (carries_bytesOf _ 8) _) _
  | _ => exact final_pure _

/-! ### Instructions -/

theorem Final.closedBy {r : Reader (Expr × Terminator)} {s : ι → Reader (Expr × Terminator)}
    (h : Final fuel r s) (hc : Carries fuel r s) :
    Final fuel (closedBy r) fun j => closedBy (s j) := by
  refine final_offset fun start => h.bind hc fun p => ?_
  obtain ⟨e, t⟩ := p
  cases t with
  | endByte => exact final_pure e
  | elseByte => exact final_throw _ _

theorem final_instrAfter {n : Nat} {k : ι → Nat} (op : Opcode)
    (h : Final fuel (instrs n) fun j => instrs (k j))
    (hc : Carries fuel (instrs n) fun j => instrs (k j)) :
    Final fuel (instrAfter (instrs n) op) fun j => instrAfter (instrs (k j)) op := by
  cases op with
  | block | loop =>
    exact final_blockType.bind carries_blockType fun type =>
      (h.closedBy hc).bind hc.closedBy fun body => final_pure _
  | ifElse =>
    refine final_blockType.bind carries_blockType fun type => h.bind hc fun p => ?_
    obtain ⟨thenBody, t⟩ := p
    cases t with
    | elseByte => exact (h.closedBy hc).bind hc.closedBy fun elseBody => final_pure _
    | endByte => exact final_pure _
  | _ => exact (final_immediate _).map (carries_immediate _) _

theorem final_instrs (n : Nat) : Final id (instrs n) instrs := by
  induction n with
  | zero =>
    intro offset bytes e h
    cases h
    exact .inl rfl
  | succ n ih =>
    have hsucc : Final (· + 1) (instrs (n + 1)) fun k => instrs (k + 1) := by
      simp only [instrs_succ]
      refine final_offset fun start => final_byte_bind fun b =>
        final_ite (fun _ => final_pure _) fun _ => final_ite (fun _ => final_pure _) fun _ => ?_
      cases Opcode.ofByte? b with
      | none => exact final_throw _ _
      | some op =>
        exact (final_instrAfter op ih (carries_instrs n)).bind
          (carries_instrAfter op (carries_instrs n)) fun i =>
            ih.bind (carries_instrs n) fun p => final_pure _
    intro offset bytes e h
    rcases hsucc h with hend | hlonger
    · exact .inl hend
    · refine .inr fun j more hj => ?_
      cases j with
      | zero => exact absurd hj (Nat.not_lt_zero _)
      | succ k => exact hlonger k more hj

/-- The fuel of a sequence with its `end` grows with the input. -/
theorem final_expr : Final fuel Reader.expr fun _ => Reader.expr := by
  intro offset bytes e h
  rw [expr_eq] at h
  rcases (final_instrs _).closedBy (carries_instrs _) h with hend | hlonger
  · exact .inl hend
  · refine .inr fun _ more _ => ?_
    obtain ⟨e', he'⟩ := hlonger ((bytes ++ more).length + 1) more (Nat.lt_succ_self _)
    exact ⟨e', (expr_eq _).trans he'⟩

end Wasm.Binary
