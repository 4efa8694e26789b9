import Wasm.Proofs.Execution.Lists
import Wasm.Proofs.Execution.Objects
import Wasm.Proofs.Instantiation.Contents

/-!
# Loads and stores

Every load and every store is an `Access`: so many bytes at the sum of two 32-bit numbers, and for a
load the number of bits of what it pushes.  An access that is not within the memory traps and
changes no object.  One that is within it reads or writes exactly its bytes, the least significant
first, and so a load finds what the stores before it have left, byte by byte (`byte_of_stored`).
-/

namespace Wasm

/-- The integer that a pattern of so many bits stands for. -/
def Sign.integer (s : Sign) (bits n : Nat) : Int :=
  match s with
  | .unsigned => n
  | .signed => if 2 * n < 2 ^ bits then n else n - 2 ^ bits

/-- What a load or a store does. -/
inductive Access where
  /-- Pushes a number of `bits` bits for the `count` bytes that it reads. -/
  | load (count bits : Nat) (s : Sign)
  /-- Writes the lowest `count` bytes of a slot. -/
  | store (count : Nat)

/-- The access of a load or a store. -/
def Opcode.access? : Opcode → Option Access
  | .load t => some (.load t.bytes (8 * t.bytes) .unsigned)
  | .loadPart w p s => some (.load p.bytes w.bits s)
  | .store t => some (.store t.bytes)
  | .storePart _ p => some (.store p.bytes)
  | _ => none

/-- The loads and the stores, with the number of bytes of each, and for a load the number of bits it
makes of them and how. -/
def accesses : List (Opcode × Access) :=
  [(.load .i32, .load 4 32 .unsigned), (.load .i64, .load 8 64 .unsigned),
    (.load .f32, .load 4 32 .unsigned), (.load .f64, .load 8 64 .unsigned),
    (.loadPart .w32 .byte .signed, .load 1 32 .signed),
    (.loadPart .w32 .byte .unsigned, .load 1 32 .unsigned),
    (.loadPart .w32 .half .signed, .load 2 32 .signed),
    (.loadPart .w32 .half .unsigned, .load 2 32 .unsigned),
    (.loadPart .w64 .byte .signed, .load 1 64 .signed),
    (.loadPart .w64 .byte .unsigned, .load 1 64 .unsigned),
    (.loadPart .w64 .half .signed, .load 2 64 .signed),
    (.loadPart .w64 .half .unsigned, .load 2 64 .unsigned),
    (.loadPart .w64 .word .signed, .load 4 64 .signed),
    (.loadPart .w64 .word .unsigned, .load 4 64 .unsigned),
    (.store .i32, .store 4), (.store .i64, .store 8), (.store .f32, .store 4),
    (.store .f64, .store 8), (.storePart .w32 .byte, .store 1), (.storePart .w32 .half, .store 2),
    (.storePart .w64 .byte, .store 1), (.storePart .w64 .half, .store 2),
    (.storePart .w64 .word, .store 4)]

/-- What the loads and the stores do is what the list says, and no other opcode accesses a
memory. -/
theorem Opcode.access?_eq_some_iff {op : Opcode} {access : Access} :
    op.access? = some access ↔ (op, access) ∈ accesses := by
  constructor
  · intro h
    cases op with
    | load t =>
      cases h
      cases t <;> simp [accesses, ValueType.bytes]
    | loadPart w p s =>
      cases h
      cases p with
      | byte | half => cases w <;> cases s <;> simp [accesses, Part.bytes, Width.bits]
      | word => cases s <;> simp [accesses, Part.bytes, Width.bits]
    | store t =>
      cases h
      cases t <;> simp [accesses, ValueType.bytes]
    | storePart w p =>
      cases h
      cases p with
      | byte | half => cases w <;> simp [accesses, Part.bytes]
      | word => simp [accesses, Part.bytes]
    | _ => cases h
  · intro h
    have hall : ∀ entry ∈ accesses, entry.1.access? = some entry.2 := by
      simp [accesses, access?, ValueType.bytes, Part.bytes, Width.bits]
    exact hall _ h

/-- The address of an access: the offset and the low half of a slot, without wrapping around. -/
def MemArg.addressOf (m : MemArg) (slot : UInt64) : Nat :=
  m.offset.toNat + slot.toNat % 2 ^ 32

/-! ### Bytes in a row -/

namespace LittleEndian

theorem getElem?_encode (count n i : Nat) :
    (encode count n)[i]? = if i < count then some (UInt8.ofNat (n / 256 ^ i)) else none := by
  induction count generalizing n i with
  | zero => rfl
  | succ count ih =>
    cases i with
    | zero => simp [encode]
    | succ i =>
      rw [encode, List.getElem?_cons_succ, ih, Nat.div_div_eq_div_mul, Nat.pow_succ, Nat.mul_comm 256]
      simp only [Nat.add_lt_add_iff_right]

/-- What is above the bytes does not count. -/
theorem encode_mod (count n : Nat) : encode count (n % 256 ^ count) = encode count n := by
  induction count generalizing n with
  | zero => rfl
  | succ count ih =>
    have hhead : UInt8.ofNat (n % 256 ^ (count + 1)) = UInt8.ofNat n := by
      rw [← UInt8.toNat_inj, UInt8.toNat_ofNat', UInt8.toNat_ofNat', Nat.pow_succ]
      exact Nat.mod_mul_left_mod n (256 ^ count) 256
    rw [encode, encode, hhead, Nat.pow_succ, Nat.mul_comm, Nat.mod_mul_right_div_self, ih]

end LittleEndian

namespace Memory

variable {mem mem' : Memory} {ea count n : Nat}

/-- The second memory is the first one with the lowest `count` bytes of a number at an address. -/
structure Stored (mem : Memory) (ea count n : Nat) (mem' : Memory) : Prop where
  limits : mem'.limits = mem.limits
  maxPages : mem'.maxPages = mem.maxPages
  size : mem'.bytes.size = mem.bytes.size
  inside : mem'.read ea count = .ok (LittleEndian.encode count (n % 2 ^ (8 * count)))
  outside : ∀ i, i < ea ∨ ea + count ≤ i → mem'.byte i = mem.byte i

theorem read_of_inBounds (h : mem.inBounds ea count) :
    mem.read ea count = .ok ((List.range count).map fun i => mem.byte (ea + i)) :=
  if_pos h

theorem stored_put (mem : Memory) (ea count n : Nat) (h : mem.inBounds ea count) :
    mem.Stored ea count n (mem.put ea (LittleEndian.encode count n)) := by
  have hlength := LittleEndian.length_encode count n
  have hput := Instantiation.byte_put mem ea (LittleEndian.encode count n) (by rw [hlength]; exact h)
  have hsize : (mem.put ea (LittleEndian.encode count n)).bytes.size = mem.bytes.size :=
    size_setBytes ..
  refine ⟨rfl, rfl, hsize, ?_, fun i hi => ?_⟩
  · have hin : (mem.put ea (LittleEndian.encode count n)).inBounds ea count := by
      rw [inBounds, hsize]
      exact h
    rw [read_of_inBounds hin, show 2 ^ (8 * count) = 256 ^ count from Nat.pow_mul 2 8 count,
      LittleEndian.encode_mod]
    refine congrArg Except.ok (List.ext_getElem? fun i => ?_)
    rw [List.getElem?_map, LittleEndian.getElem?_encode]
    by_cases hi : i < count
    · rw [List.getElem?_range hi, if_pos hi, Option.map_some, hput, Instantiation.placed,
        if_pos (Nat.le_add_right ..), Nat.add_sub_cancel_left, LittleEndian.getElem?_encode,
        if_pos hi, Option.getD_some]
    · rw [List.getElem?_eq_none (by simpa using hi), if_neg hi]
      rfl
  · rw [hput, Instantiation.placed]
    split
    · next hle =>
      rw [List.getElem?_eq_none (by rw [hlength]; omega)]
      rfl
    · rfl

/-- The byte at a place once the lowest `count` bytes of a number are at an address. -/
def byteAfter (mem : Memory) (ea count n i : Nat) : UInt8 :=
  if ea ≤ i ∧ i < ea + count then UInt8.ofNat (n / 256 ^ (i - ea)) else mem.byte i

theorem byte_of_stored (h : mem.Stored ea count n mem') (i : Nat) :
    mem'.byte i = mem.byteAfter ea count n i := by
  rw [byteAfter]
  split
  · next hi =>
    have hread := h.inside
    rw [show 2 ^ (8 * count) = 256 ^ count from Nat.pow_mul 2 8 count,
      LittleEndian.encode_mod] at hread
    have hin : mem'.inBounds ea count := by
      by_contra hout
      rw [read, if_neg hout] at hread
      cases hread
    rw [read_of_inBounds hin] at hread
    have hbyte := congrArg (fun l => l[i - ea]?) (Except.ok.inj hread)
    rw [List.getElem?_map, List.getElem?_range (by omega), LittleEndian.getElem?_encode,
      if_pos (by omega), Option.map_some, Nat.add_sub_cancel' hi.1] at hbyte
    exact Option.some.inj hbyte
  · next hi => exact h.outside i (by omega)

end Memory

/-- Putting bytes into a memory is replacing it. -/
theorem Objects.putBytes_eq {o : Objects} {a : Address} {mem : Memory} (h : o.memory a = .ok mem)
    (offset : Nat) (data : List UInt8) :
    o.putBytes a offset data = o.putMemory a (mem.put offset data) := by
  refine congrArg (fun memories => { o with memories }) (Array.ext_getElem? fun a' => ?_)
  have hmem := Objects.memory_eq_ok_iff.mp h
  rw [Array.getElem?_modify, Array.getElem?_setIfInBounds]
  by_cases ha : a = a'
  · subst ha
    rw [if_pos rfl, if_pos rfl, hmem, if_pos (Array.getElem?_eq_some_iff.mp hmem).1]
    rfl
  · rw [if_neg ha, if_neg ha]

theorem Objects.memory_putMemory {o : Objects} {a : Address} {mem : Memory}
    (h : o.memory a = .ok mem) (mem' : Memory) : (o.putMemory a mem').memory a = .ok mem' :=
  Objects.memory_eq_ok_iff.mpr (Array.getElem?_setIfInBounds_self_of_lt
    (Array.getElem?_eq_some_iff.mp (Objects.memory_eq_ok_iff.mp h)).1)

/-! ### What is pushed -/

theorem Width.toNat_slot {w : Width} (a : BitVec w.bits) : (w.slot a).toNat = a.toNat := by
  show (a.setWidth 64).toNat = a.toNat
  rw [BitVec.toNat_setWidth]
  refine Nat.mod_eq_of_lt (Nat.lt_of_lt_of_le a.isLt (Nat.pow_le_pow_right (by decide) ?_))
  cases w <;> decide

theorem Part.bits_eq {w : Width} (p : Part w) : p.bits = 8 * p.bytes := by
  cases p <;> rfl

theorem Part.bits_le {w : Width} (p : Part w) : p.bits ≤ w.bits := by
  cases w <;> cases p <;> decide

/-- A narrow load pushes the integer that its bytes stand for, at the width of its result. -/
theorem toNat_extendPart {w : Width} (p : Part w) (s : Sign) {n : Nat} (hn : n < 2 ^ p.bits) :
    ((Execution.extendPart p s n).toNat : Int) = s.integer (8 * p.bytes) n % 2 ^ w.bits := by
  have hpow : 2 ^ p.bits ≤ 2 ^ w.bits := Nat.pow_le_pow_right (by decide) p.bits_le
  have hword : n % 2 ^ w.bits = n := Nat.mod_eq_of_lt (Nat.lt_of_lt_of_le hn hpow)
  cases s with
  | unsigned =>
    rw [Execution.extendPart, Width.toNat_slot, BitVec.toNat_ofNat]
    rfl
  | signed =>
    have hbits : 2 ^ p.bits = 2 * 2 ^ (p.bits - 1) := by
      cases p <;> rfl
    rw [Execution.extendPart, Width.toNat_slot, BitVec.toNat_signExtend, BitVec.toNat_setWidth,
      BitVec.msb_eq_decide, BitVec.toNat_ofNat, Nat.mod_eq_of_lt hn, hword, Sign.integer, ← p.bits_eq]
    by_cases hneg : 2 ^ (p.bits - 1) ≤ n
    · -- The integer is negative: the word above it is filled with ones.
      have hadd : (n : Int) - (2 ^ p.bits : Nat) + (2 ^ w.bits : Nat) =
          ((n + (2 ^ w.bits - 2 ^ p.bits) : Nat) : Int) := by
        omega
      rw [if_pos (decide_eq_true hneg),
        if_neg (by exact_mod_cast (show ¬ 2 * n < 2 ^ p.bits by omega)), ← Int.add_emod_right]
      push_cast at hadd ⊢
      rw [hadd]
      have hlt : n + (2 ^ w.bits - 2 ^ p.bits) < 2 ^ w.bits := by omega
      exact_mod_cast (Nat.mod_eq_of_lt hlt).symm
    · rw [if_neg (by simpa using hneg), if_pos (by exact_mod_cast (show 2 * n < 2 ^ p.bits by omega)),
        Nat.add_zero]
      exact_mod_cast hword.symm

/-! ### Executions -/

namespace Execution

variable {b : Bindings} {m : MemArg} {x y : Execution} {a : Address} {mem : Memory}
  {slots rest : List UInt64} {addr slot : UInt64} {count : Nat} {decode : Nat → UInt64}

/-- An execution of an instance with a memory, and what its operand stack holds. -/
structure Accesses (b : Bindings) (a : Address) (mem : Memory) (slots : List UInt64)
    (x : Execution) : Prop where
  address : b.memoryAt = .ok a
  memory : x.objects.memory a = .ok mem
  slots : x.thread.operands.slots.items = slots
  height : x.thread.operands.height ≤ x.thread.operands.limit

/-- The execution with other slots on its operand stack. -/
def withSlots (x : Execution) (slots : List UInt64) : Execution :=
  ⟨x.objects, .ofLists slots x.thread.operands.limit x.thread.frames.items x.thread.localBase
    x.thread.callDepth⟩

theorem eq_withSlots (h : x.thread.operands.slots.items = slots) : x.withSlots slots = x := by
  subst h
  rw [withSlots, ← Thread.eq_ofLists]

theorem popU32_withSlots (slot : UInt64) :
    popU32 (x.withSlots (slot :: rest)) = .ok slot.toUInt32 (x.withSlots rest) :=
  popU32_ofLists slot

theorem pop_withSlots (slot : UInt64) :
    pop (x.withSlots (slot :: rest)) = .ok slot (x.withSlots rest) :=
  pop_ofLists slot

theorem push_withSlots (h : rest.length < x.thread.operands.limit) :
    push slot (x.withSlots rest) = .ok () (x.withSlots (slot :: rest)) :=
  (push_ofLists slot).trans (if_neg (Nat.not_le.mpr h))

theorem effectiveAddress_eq (m : MemArg) (slot : UInt64) :
    effectiveAddress m slot.toUInt32 = m.addressOf slot := by
  rw [effectiveAddress, UInt64.toNat_toUInt32]
  rfl

theorem load_eq (h : x.Accesses b a mem (addr :: rest)) :
    load b m count decode x =
      if mem.inBounds (m.addressOf addr) count then
        .ok () (x.withSlots (decode (LittleEndian.decode ((List.range count).map fun i =>
          mem.byte (m.addressOf addr + i))) :: rest))
      else .error (mem.outOfBounds (m.addressOf addr) count).error
        (x.withSlots rest) := by
  have hmemory : (x.withSlots rest).objects.memory a = .ok mem := h.memory
  conv_lhs => rw [← eq_withSlots h.slots]
  unfold load
  rw [bind_ok (popU32_withSlots addr), bind_get, h.address, bind_ok (orTrap_ok _ _), hmemory,
    bind_ok (orTrap_ok _ _), Memory.read, effectiveAddress_eq]
  by_cases hin : mem.inBounds (m.addressOf addr) count
  · rw [if_pos hin, if_pos hin, bind_ok (orTrap_ok _ _)]
    refine push_withSlots ?_
    have hheight := h.height
    rw [OperandStack.height_eq, h.slots, List.length_cons] at hheight
    exact hheight
  · rw [if_neg hin, if_neg hin]
    rfl

theorem store_eq (h : x.Accesses b a mem (slot :: addr :: rest)) :
    store b m count x =
      if mem.inBounds (m.addressOf addr) count then
        .ok () ⟨x.objects.putBytes a (m.addressOf addr)
          (LittleEndian.encode count slot.toNat), (x.withSlots rest).thread⟩
      else .error (mem.outOfBounds (m.addressOf addr) count).error
        (x.withSlots rest) := by
  have hmemory : (x.withSlots rest).objects.memory a = .ok mem := h.memory
  conv_lhs => rw [← eq_withSlots h.slots]
  unfold store
  rw [bind_ok (pop_withSlots slot), bind_ok (popU32_withSlots addr), h.address,
    bind_ok (orTrap_ok _ _), bind_get, hmemory, bind_ok (orTrap_ok _ _)]
  simp only [effectiveAddress_eq]
  by_cases hin : mem.inBounds (m.addressOf addr) count
  · rw [if_pos hin, if_pos hin]
    rfl
  · rw [if_neg hin, if_neg hin]
    rfl

variable {op : Opcode} {bits : Nat} {s : Sign}

/-- Executing the instruction ends in the trap of an access that is not within the memory, and no
object changes. -/
def Refuses (b : Bindings) (i : Instr) (x : Execution) : Prop :=
  ∃ e y, execute b i x = .error e y ∧ e.code = Code.memoryOutOfBounds ∧ y.objects = x.objects

/-- Executing the instruction pushes the number in place of what it pops. -/
def Pushes (b : Bindings) (i : Instr) (rest : List UInt64) (n : Int) (x : Execution) : Prop :=
  ∃ slot : UInt64, (slot.toNat : Int) = n ∧ execute b i x = .ok none (x.withSlots (slot :: rest))

theorem execute_load (hop : op.access? = some (.load count bits s))
    (h : x.Accesses b a mem (addr :: rest)) :
    ∃ slot : UInt64, (slot.toNat : Int) = s.integer (8 * count) (LittleEndian.decode
        ((List.range count).map fun i => mem.byte (m.addressOf addr + i))) % 2 ^ bits ∧
      execute b (.plain op (.memArg m)) x =
        if mem.inBounds (m.addressOf addr) count then .ok none (x.withSlots (slot :: rest))
        else .error (mem.outOfBounds (m.addressOf addr) count).error (x.withSlots rest) := by
  have hrun {decode : Nat → UInt64} {i : Instr}
      (hi : execute b i x = (do load b m count decode; return none : Step (Option Call)) x) :
      execute b i x =
        if mem.inBounds (m.addressOf addr) count then
          .ok none (x.withSlots (decode (LittleEndian.decode ((List.range count).map fun i =>
            mem.byte (m.addressOf addr + i))) :: rest))
        else .error (mem.outOfBounds (m.addressOf addr) count).error (x.withSlots rest) := by
    rw [hi]
    by_cases hin : mem.inBounds (m.addressOf addr) count
    · rw [bind_ok ((load_eq h).trans (if_pos hin)), if_pos hin]
      rfl
    · rw [bind_error ((load_eq h).trans (if_neg hin)), if_neg hin]
  have hlt := LittleEndian.decode_lt ((List.range count).map fun i => mem.byte (m.addressOf addr + i))
  rw [List.length_map, List.length_range, show 256 ^ count = 2 ^ (8 * count) from
    (Nat.pow_mul 2 8 count).symm] at hlt
  cases op <;> simp only [Opcode.access?, Option.some.injEq, Access.load.injEq, reduceCtorEq] at hop
  case load t =>
    obtain ⟨rfl, rfl, rfl⟩ := hop
    refine ⟨_, ?_, hrun rfl⟩
    have hle : 2 ^ (8 * t.bytes) ≤ 2 ^ 64 := by cases t <;> decide
    rw [UInt64.toNat_ofNat', Nat.mod_eq_of_lt (Nat.lt_of_lt_of_le hlt hle)]
    show _ = ((_ : Nat) : Int) % 2 ^ (8 * t.bytes)
    exact_mod_cast (Nat.mod_eq_of_lt hlt).symm
  case loadPart w p s =>
    obtain ⟨rfl, rfl, rfl⟩ := hop
    exact ⟨_, toNat_extendPart p s (p.bits_eq ▸ hlt), hrun rfl⟩

theorem execute_store (hop : op.access? = some (.store count))
    (h : x.Accesses b a mem (slot :: addr :: rest)) :
    execute b (.plain op (.memArg m)) x =
      if mem.inBounds (m.addressOf addr) count then
        .ok none ⟨x.objects.putMemory a (mem.put (m.addressOf addr)
          (LittleEndian.encode count slot.toNat)), (x.withSlots rest).thread⟩
      else .error (mem.outOfBounds (m.addressOf addr) count).error (x.withSlots rest) := by
  have hrun {i : Instr}
      (hi : execute b i x = (do store b m count; return none : Step (Option Call)) x) :
      execute b i x = if mem.inBounds (m.addressOf addr) count then
        .ok none ⟨x.objects.putMemory a (mem.put (m.addressOf addr)
          (LittleEndian.encode count slot.toNat)), (x.withSlots rest).thread⟩
        else .error (mem.outOfBounds (m.addressOf addr) count).error (x.withSlots rest) := by
    rw [hi]
    by_cases hin : mem.inBounds (m.addressOf addr) count
    · rw [bind_ok ((store_eq h).trans (if_pos hin)), if_pos hin,
        Objects.putBytes_eq h.memory]
      rfl
    · rw [bind_error ((store_eq h).trans (if_neg hin)), if_neg hin]
  cases op <;> simp only [Opcode.access?, Option.some.injEq, Access.store.injEq, reduceCtorEq] at hop
  case store t =>
    subst hop
    exact hrun rfl
  case storePart w p =>
    subst hop
    exact hrun rfl

theorem refuses_iff {y : Execution}
    (hrun : execute b (.plain op (.memArg m)) x =
      if mem.inBounds (m.addressOf addr) count then .ok none y
      else .error (mem.outOfBounds (m.addressOf addr) count).error (x.withSlots rest)) :
    x.Refuses b (.plain op (.memArg m)) ↔ mem.bytes.size < m.addressOf addr + count := by
  rw [Refuses, hrun]
  by_cases hin : mem.inBounds (m.addressOf addr) count
  · rw [if_pos hin]
    constructor
    · rintro ⟨e, y', h, -⟩
      cases h
    · exact fun hlt => absurd hin (Nat.not_le.mpr hlt)
  · rw [if_neg hin]
    exact ⟨fun _ => Nat.not_le.mp hin, fun _ => ⟨_, _, rfl, rfl, rfl⟩⟩

/-- Loads and stores are exact.  Whether one traps depends on nothing but its address, its width and
the size of the memory, and if it traps, no object has changed.  A load pushes the number of its
bytes, extended to its result; a store changes its bytes and nothing else.  A load from the memory
that a store has left finds the stored bytes where the store has put some, and elsewhere the bytes
from before, whichever instance it belongs to. -/
theorem accesses_exact {b : Bindings} {a : Address} {mem : Memory} {x : Execution} {m : MemArg}
    {op : Opcode} {addr : UInt64} {rest : List UInt64} :
    (∀ {count bits : Nat} {s : Sign}, op.access? = some (.load count bits s) →
      x.Accesses b a mem (addr :: rest) →
        (x.Refuses b (.plain op (.memArg m)) ↔ mem.bytes.size < m.addressOf addr + count) ∧
        (m.addressOf addr + count ≤ mem.bytes.size →
          ∃ data, mem.read (m.addressOf addr) count = .ok data ∧
            x.Pushes b (.plain op (.memArg m)) rest
              (s.integer (8 * count) (LittleEndian.decode data) % 2 ^ bits))) ∧
    (∀ {count : Nat} {slot : UInt64}, op.access? = some (.store count) →
      x.Accesses b a mem (slot :: addr :: rest) →
        (x.Refuses b (.plain op (.memArg m)) ↔ mem.bytes.size < m.addressOf addr + count) ∧
        (m.addressOf addr + count ≤ mem.bytes.size →
          ∃ mem', mem.Stored (m.addressOf addr) count slot.toNat mem' ∧
            execute b (.plain op (.memArg m)) x =
              .ok none ⟨x.objects.putMemory a mem', (x.withSlots rest).thread⟩ ∧
            (x.objects.putMemory a mem').memory a = .ok mem' ∧
            ∀ {b' : Bindings} {y : Execution} {m' : MemArg} {op' : Opcode} {count' bits' : Nat}
              {s' : Sign} {addr' : UInt64} {rest' : List UInt64},
              op'.access? = some (.load count' bits' s') →
              y.Accesses b' a mem' (addr' :: rest') →
              m'.addressOf addr' + count' ≤ mem.bytes.size →
              y.Pushes b' (.plain op' (.memArg m')) rest'
                (s'.integer (8 * count') (LittleEndian.decode ((List.range count').map fun i =>
                  mem.byteAfter (m.addressOf addr) count slot.toNat (m'.addressOf addr' + i))) %
                    2 ^ bits'))) := by
  constructor
  case left =>
    intro count bits s hop h
    obtain ⟨slot, hslot, hrun⟩ := execute_load (m := m) hop h
    refine ⟨refuses_iff hrun, fun hin => ?_⟩
    exact ⟨_, Memory.read_of_inBounds hin, slot, hslot, hrun.trans (if_pos hin)⟩
  case right =>
    intro count slot hop h
    have hrun := execute_store (m := m) hop h
    refine ⟨refuses_iff hrun, fun hin => ?_⟩
    have hstored := Memory.stored_put mem (m.addressOf addr) count slot.toNat hin
    refine ⟨_, hstored, hrun.trans (if_pos hin), Objects.memory_putMemory h.memory _, ?_⟩
    intro b' y m' op' count' bits' s' addr' rest' hop' hy hin'
    obtain ⟨slot', hslot', hrun'⟩ := execute_load (m := m') hop' hy
    simp only [Memory.byte_of_stored hstored] at hslot'
    exact ⟨slot', hslot', hrun'.trans (if_pos (Nat.le_trans hin' (Nat.le_of_eq hstored.size.symm)))⟩

/-- A signed 16-bit load finds one of the bytes that a 16-bit store before it has left, and one from
before.  The upper halves of the slots do not count. -/
theorem load_across_store :
    let b : Bindings := { self := 0, module := {}, config := {}, memory := some 0 }
    let x : Execution := ⟨{ memories := #[⟨⟨0, none⟩, 1, ⟨#[1, 2, 3, 4]⟩⟩] },
      .ofLists [0x12ff80, 0x700000001] 8 [] 0 0⟩
    ∃ mem' y, execute b (.plain (.storePart .w32 .half) (.memArg ⟨0, 0⟩)) x = .ok none y ∧
      y.objects.memory 0 = .ok mem' ∧
      Pushes b (.plain (.loadPart .w32 .half .signed) (.memArg ⟨0, 2⟩)) [] 1279
        ⟨y.objects, .ofLists [0] 8 [] 0 0⟩ ∧
      Pushes b (.plain (.loadPart .w32 .half .signed) (.memArg ⟨0, 1⟩)) [] 4294967168
        ⟨y.objects, .ofLists [0] 8 [] 0 0⟩ := by
  intro b x
  have hx : x.Accesses b 0 ⟨⟨0, none⟩, 1, ⟨#[1, 2, 3, 4]⟩⟩ [0x12ff80, 0x700000001] :=
    ⟨rfl, rfl, rfl, by decide⟩
  have hop : (Opcode.storePart .w32 .half).access? = some (.store 2) := rfl
  have hop' : (Opcode.loadPart .w32 .half .signed).access? = some (.load 2 32 .signed) := rfl
  obtain ⟨-, hin⟩ := (accesses_exact (m := ⟨0, 0⟩)).2 hop hx
  obtain ⟨mem', -, hrun, hmem', hload⟩ := hin (by decide)
  have hnext : Accesses b 0 mem' [0] ⟨_, .ofLists [0] 8 [] 0 0⟩ :=
    ⟨rfl, hmem', rfl, Nat.succ_le_succ (Nat.zero_le 7)⟩
  have htwo : (MemArg.mk 0 2).addressOf 0 + 2 ≤ 4 := by decide
  have hone : (MemArg.mk 0 1).addressOf 0 + 2 ≤ 4 := by decide
  exact ⟨mem', _, hrun, hmem', hload hop' hnext htwo, hload hop' hnext hone⟩

end Execution

end Wasm
