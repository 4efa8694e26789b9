import Wasm.Embedding
import Wasm.Proofs.Growth.Extents
import Wasm.Proofs.Memory.Accesses

/-!
# Operations on a memory that is shared

Whoever has the address of a memory can ask it to grow, read from it and write to it, in any order.
Three bounds meet when it grows: the declared maximum, the bound of its creator, and that of a
32-bit number.  `Memory.Whole` is what every operation keeps: the bytes are whole pages, and no more
of them than the memory has room for.  So the size of a memory is never taken for the number that
stands for a failure.
-/

namespace Wasm

/-- The most pages that the limits and the bound of a memory allow. -/
def Limits.room (l : Limits) (bound : UInt32) : Nat :=
  match l.max with
  | some max => Nat.min max.toNat bound.toNat
  | none => bound.toNat

namespace Memory

/-- A memory of whole pages that is not larger than its limits and its bound allow. -/
structure Whole (l : Limits) (bound : UInt32) (mem : Memory) : Prop where
  limits : mem.limits = l
  maxPages : mem.maxPages = bound
  bytes : mem.bytes.size = pageSize * mem.pages
  le_room : mem.pages ≤ l.room bound

/-- The second memory is the first one with so many more pages, which hold zeros. -/
structure Grew (mem : Memory) (delta : UInt32) (mem' : Memory) : Prop where
  limits : mem'.limits = mem.limits
  maxPages : mem'.maxPages = mem.maxPages
  size : mem'.size.toNat = mem.size.toNat + delta.toNat
  kept : ∀ i < mem.bytes.size, mem'.byte i = mem.byte i
  zeros : ∀ i, mem.bytes.size ≤ i → mem'.byte i = 0

/-- What can be done with a memory. -/
inductive Operation where
  | grow (delta : UInt32)
  | read (offset length : Nat)
  | write (offset : Nat) (data : List UInt8)

/-- What an operation that succeeds gives. -/
inductive Answer where
  /-- The size before the memory grew. -/
  | size (old : UInt32)
  | bytes (data : List UInt8)
  | written

/-! ### Pages that are added -/

theorem get!_append (xs ys : ByteArray) (i : Nat) :
    (xs ++ ys).get! i = if i < xs.size then xs.get! i else ys.get! (i - xs.size) := by
  show (xs ++ ys).data[i]! = if i < xs.data.size then xs.data[i]! else ys.data[i - xs.data.size]!
  rw [ByteArray.data_append, getElem!_def, Array.getElem?_append]
  by_cases hi : i < xs.data.size
  · rw [if_pos hi, if_pos hi, getElem!_def]
  · rw [if_neg hi, if_neg hi, getElem!_def]

theorem get!_zeroPage (i : Nat) : zeroPage.get! i = 0 := by
  show (Array.replicate pageSize (0 : UInt8))[i]! = 0
  rw [getElem!_def, Array.getElem?_replicate]
  by_cases hi : i < pageSize
  · rw [if_pos hi]
  · rw [if_neg hi]
    rfl

theorem get!_of_size_le {bytes : ByteArray} {i : Nat} (h : bytes.size ≤ i) : bytes.get! i = 0 := by
  show bytes.data[i]! = 0
  rw [getElem!_def, Array.getElem?_eq_none h]
  rfl

/-- Every byte is what it was, and beyond the old end it is zero as before. -/
theorem get!_appendPages (bytes : ByteArray) (pages i : Nat) :
    (appendPages bytes pages).get! i = bytes.get! i := by
  induction pages generalizing bytes with
  | zero => rfl
  | succ pages ih =>
    rw [appendPages, ih, get!_append]
    split
    · rfl
    · next h => rw [get!_zeroPage, get!_of_size_le (Nat.not_lt.mp h)]

/-! ### Whole pages -/

variable {l : Limits} {bound delta : UInt32} {mem : Memory}

theorem toNat_bound (mem : Memory) : mem.bound.toNat = mem.limits.room mem.maxPages := by
  have hmin (a b : UInt32) : (min a b).toNat = Nat.min a.toNat b.toNat := by
    show (if a ≤ b then a else b).toNat = if a.toNat ≤ b.toNat then a.toNat else b.toNat
    by_cases h : a ≤ b
    · rw [if_pos h]
      exact (if_pos h).symm
    · rw [if_neg h]
      exact (if_neg h).symm
  rw [Memory.bound, hmin, Limits.room]
  cases mem.limits.max with
  | some max => rfl
  | none => exact Nat.min_eq_right (Nat.le_of_lt_succ mem.maxPages.toNat_lt)

theorem room_le (l : Limits) (bound : UInt32) : l.room bound ≤ bound.toNat := by
  rw [Limits.room]
  split
  · exact Nat.min_le_right ..
  · exact Nat.le_refl _

theorem Whole.toNat_size (h : mem.Whole l bound) : mem.size.toNat = mem.pages :=
  UInt32.toNat_ofNat_of_lt' (Nat.lt_of_le_of_lt (Nat.le_trans h.le_room (room_le l bound))
    bound.toNat_lt)

theorem Whole.put (h : mem.Whole l bound) (offset : Nat) (data : List UInt8) :
    (mem.put offset data).Whole l bound := by
  have hsize : (mem.put offset data).bytes.size = mem.bytes.size := size_setBytes ..
  have hpages : (mem.put offset data).pages = mem.pages := congrArg (· / pageSize) hsize
  refine ⟨h.limits, h.maxPages, ?_, ?_⟩
  · rw [hsize, hpages, h.bytes]
  · rw [hpages]
    exact h.le_room

/-- Growth that there is room for. -/
theorem Whole.grow_of_le (h : mem.Whole l bound)
    (hfits : mem.size.toNat + delta.toNat ≤ l.room bound) :
    ∃ mem', mem.grow delta = .ok (mem.size, mem') ∧ mem.Grew delta mem' ∧ mem'.Whole l bound := by
  have hpages : pages { mem with bytes := appendPages mem.bytes delta.toNat } =
      mem.pages + delta.toNat := pages_appendPages ..
  have hwhole : Whole l bound { mem with bytes := appendPages mem.bytes delta.toNat } := by
    refine ⟨h.limits, h.maxPages, ?_, ?_⟩
    · rw [hpages, Nat.mul_add, ← h.bytes, Nat.mul_comm pageSize]
      exact size_appendPages ..
    · rw [hpages, ← h.toNat_size]
      exact hfits
  refine ⟨{ mem with bytes := appendPages mem.bytes delta.toNat }, ?_, ⟨rfl, rfl, ?_, ?_, ?_⟩, hwhole⟩
  · rw [grow, if_pos]
    rw [toNat_bound, h.limits, h.maxPages]
    exact hfits
  · rw [hwhole.toNat_size, hpages, h.toNat_size]
  · exact fun i _ => get!_appendPages ..
  · exact fun i hi => (get!_appendPages ..).trans (get!_of_size_le hi)

/-- Growth that there is no room for. -/
theorem Whole.grow_of_lt (h : mem.Whole l bound)
    (hout : ¬ mem.size.toNat + delta.toNat ≤ l.room bound) : ∃ e, mem.grow delta = .error e := by
  refine ⟨_, if_neg ?_⟩
  rw [toNat_bound, h.limits, h.maxPages]
  exact hout

/-- A new memory. -/
theorem whole_allocate (hmin : l.min ≤ bound) (hmax : l.Ordered) :
    ∃ mem, allocate l bound = .ok mem ∧ mem.Whole l bound := by
  have hpages : pages ⟨l, bound, appendPages .empty l.min.toNat⟩ = l.min.toNat :=
    (pages_appendPages ..).trans (Nat.zero_add _)
  refine ⟨_, if_neg (UInt32.not_lt.mpr hmin), rfl, rfl, ?_, ?_⟩
  · rw [hpages, Nat.mul_comm]
    exact (size_appendPages ..).trans (Nat.zero_add _)
  · rw [hpages, Limits.room]
    split
    · next max heq => exact Nat.le_min.mpr ⟨hmax max heq, hmin⟩
    · exact hmin

end Memory

/-! ### Operations of those who share a memory -/

namespace Store

open Memory

/-- Does something with the memory at an address. -/
def operate (s : Store) (a : Address) : Operation → Except Error Answer × Store
  | .grow delta => ((s.growMemory a delta).1.map .size, (s.growMemory a delta).2)
  | .read offset length => ((s.readMemory a offset length).map .bytes, s)
  | .write offset data =>
    ((s.assignMemory a offset data).1.map fun _ => .written, (s.assignMemory a offset data).2)

/-- The store after some operations, of which any may have failed. -/
def operateAll (s : Store) (a : Address) (operations : List Operation) : Store :=
  operations.foldl (fun s op => (s.operate a op).2) s

variable {l : Limits} {bound delta : UInt32} {mem : Memory} {s : Store} {a : Address}

theorem operate_grow_of_le (hmem : s.objects.memory a = .ok mem) (h : mem.Whole l bound)
    (hfits : mem.size.toNat + delta.toNat ≤ l.room bound) : ∃ mem', mem.Grew delta mem' ∧
      mem'.Whole l bound ∧ s.operate a (.grow delta) =
        (.ok (.size mem.size), { s with objects := s.objects.putMemory a mem' }) := by
  obtain ⟨mem', hgrow, hgrew, hwhole⟩ := h.grow_of_le hfits
  refine ⟨mem', hgrew, hwhole, ?_⟩
  have hrun : s.growMemory a delta =
      (.ok mem.size, { s with objects := s.objects.putMemory a mem' }) := by
    rw [growMemory, hmem]
    dsimp only
    rw [hgrow]
  rw [operate, hrun]
  rfl

theorem operate_grow_of_lt (hmem : s.objects.memory a = .ok mem) (h : mem.Whole l bound)
    (hout : ¬ mem.size.toNat + delta.toNat ≤ l.room bound) :
    ∃ e, s.operate a (.grow delta) = (.error e, s) := by
  obtain ⟨e, hgrow⟩ := h.grow_of_lt hout
  have hrun : s.growMemory a delta = (.error e, s) := by
    rw [growMemory, hmem]
    dsimp only
    rw [hgrow]
  exact ⟨e, by rw [operate, hrun]; rfl⟩

/-- What one operation does.  If it fails, nothing has happened. -/
theorem operate_cases (hmem : s.objects.memory a = .ok mem) (h : mem.Whole l bound) (op : Operation) :
    (∃ e, s.operate a op = (.error e, s)) ∨ ∃ answer mem',
      s.operate a op = (.ok answer, { s with objects := s.objects.putMemory a mem' }) ∧
        mem'.Whole l bound ∧ mem.size ≤ mem'.size := by
  have hself : s.objects.putMemory a mem = s.objects := by
    have hmemories := Objects.memory_eq_ok_iff.mp hmem
    refine congrArg (fun memories => { s.objects with memories }) (Array.ext_getElem? fun k => ?_)
    rw [Array.getElem?_setIfInBounds]
    split
    · next hk => rw [← hk, hmemories, if_pos (Array.getElem?_eq_some_iff.mp hmemories).1]
    · rfl
  cases op with
  | grow delta =>
    by_cases hfits : mem.size.toNat + delta.toNat ≤ l.room bound
    · obtain ⟨mem', hgrew, hwhole, hrun⟩ := operate_grow_of_le hmem h hfits
      refine .inr ⟨_, mem', hrun, hwhole, ?_⟩
      exact Nat.le.intro hgrew.size.symm
    · exact .inl (operate_grow_of_lt hmem h hfits)
  | read offset length =>
    rw [operate, readMemory, hmem, Except.bind]
    cases mem.read offset length with
    | error t => exact .inl ⟨_, rfl⟩
    | ok data => exact .inr ⟨.bytes data, mem, by rw [hself]; rfl, h, UInt32.le_refl _⟩
  | write offset data =>
    rw [operate, assignMemory]
    cases hwrite : s.objects.writeMemory a offset data with
    | error t => exact .inl ⟨_, rfl⟩
    | ok o =>
      obtain ⟨mem', hmem', -, rfl⟩ := Objects.writeMemory_eq_ok_iff.mp hwrite
      obtain rfl := Except.ok.inj (hmem.symm.trans hmem')
      refine .inr ⟨.written, mem.put offset data, ?_, h.put offset data, ?_⟩
      · rw [Objects.putBytes_eq hmem]
        rfl
      · have hsize : (mem.put offset data).bytes.size = mem.bytes.size := size_setBytes ..
        rw [Memory.size, Memory.size, hsize]
        exact UInt32.le_refl _

theorem whole_operateAll (hmem : s.objects.memory a = .ok mem) (h : mem.Whole l bound)
    (operations : List Operation) :
    ∃ mem', (s.operateAll a operations).objects.memory a = .ok mem' ∧ mem'.Whole l bound := by
  induction operations generalizing s mem with
  | nil => exact ⟨mem, hmem, h⟩
  | cons op rest ih =>
    rcases operate_cases hmem h op with ⟨e, hrun⟩ | ⟨answer, mem', hrun, hwhole, -⟩
    · rw [operateAll, List.foldl_cons, hrun]
      exact ih hmem h
    · rw [operateAll, List.foldl_cons, hrun]
      exact ih (Objects.memory_putMemory hmem mem') hwhole

end Store

/-! ### The instruction -/

namespace Execution

variable {b : Bindings} {x : Execution} {a : Address} {mem : Memory} {rest : List UInt64}
  {slot : UInt64}

/-- The operand stack has room for what the instruction pushes in place of what it pops. -/
theorem execute_memoryGrow (h : x.Accesses b a mem (slot :: rest)) (imm : Immediate) :
    execute b (.plain .memoryGrow imm) x =
      match mem.grow slot.toUInt32 with
      | .ok (old, mem') => .ok none
        ⟨x.objects.putMemory a mem', (x.withSlots (old.toUInt64 :: rest)).thread⟩
      | .error _ => .ok none (x.withSlots (0xffffffff :: rest)) := by
  have hmemory : (x.withSlots rest).objects.memory a = .ok mem := h.memory
  have hroom : rest.length < x.thread.operands.limit := by
    have hheight := h.height
    rw [OperandStack.height_eq, h.slots, List.length_cons] at hheight
    exact hheight
  have hrun : memoryGrow b x =
      match mem.grow slot.toUInt32 with
      | .ok (old, mem') => .ok ()
        ⟨x.objects.putMemory a mem', (x.withSlots (old.toUInt64 :: rest)).thread⟩
      | .error _ => .ok () (x.withSlots (0xffffffff :: rest)) := by
    conv_lhs => rw [← eq_withSlots h.slots]
    unfold memoryGrow
    rw [bind_ok (popU32_withSlots slot), h.address, bind_ok (orTrap_ok _ _), bind_get, hmemory,
      bind_ok (orTrap_ok _ _)]
    cases mem.grow slot.toUInt32 with
    | error e => exact push_withSlots hroom
    | ok grown => exact push_withSlots (x := ⟨x.objects.putMemory a grown.2, x.thread⟩) hroom
  show (do memoryGrow b; return none : Step (Option Call)) x = _
  cases hgrow : mem.grow slot.toUInt32 with
  | error e =>
    rw [hgrow] at hrun
    rw [bind_ok hrun]
    rfl
  | ok grown =>
    rw [hgrow] at hrun
    rw [bind_ok hrun]
    rfl

end Execution

/-- What stays true of a memory, whoever works on it.  It can be created; and after any operations,
its bytes are whole pages and no more than there is room for.  A further operation does not make it
smaller, and does nothing if it fails.  To grow succeeds exactly if there is room, gives the old
size, and adds zeros only.  The instruction does the same for any instance that has the memory, and
pushes a number that is no size if there is no room. -/
theorem memory_operations {l : Limits} {bound : UInt32} (hmin : l.min ≤ bound)
    (hmax : ∀ max, l.max = some max → l.min ≤ max) (hbound : bound.toNat ≤ 65536) :
    ∃ mem₀, Memory.allocate l bound = .ok mem₀ ∧
      ∀ {s₀ : Store} {a : Address}, s₀.objects.memory a = .ok mem₀ →
      ∀ {operations : List Memory.Operation} {s : Store}, s₀.operateAll a operations = s →
      ∃ mem, s.objects.memory a = .ok mem ∧
        mem.bytes.size = 65536 * mem.size.toNat ∧ mem.size.toNat ≤ l.room bound ∧
        (∀ op, ∃ mem', (s.operate a op).2.objects.memory a = .ok mem' ∧ mem.size ≤ mem'.size ∧
          ∀ e, (s.operate a op).1 = .error e → (s.operate a op).2 = s) ∧
        (∀ delta : UInt32,
          (mem.size.toNat + delta.toNat ≤ l.room bound → ∃ mem', mem.Grew delta mem' ∧
            s.operate a (.grow delta) =
              (.ok (.size mem.size), { s with objects := s.objects.putMemory a mem' })) ∧
          (¬ mem.size.toNat + delta.toNat ≤ l.room bound →
            ∃ e, s.operate a (.grow delta) = (.error e, s))) ∧
        ∀ {b : Bindings} {x : Execution} {slot : UInt64} {rest : List UInt64} (imm : Immediate),
          x.Accesses b a mem (slot :: rest) →
          (mem.size.toNat + slot.toUInt32.toNat ≤ l.room bound → ∃ mem',
            mem.Grew slot.toUInt32 mem' ∧ Execution.execute b (.plain .memoryGrow imm) x =
              .ok none ⟨x.objects.putMemory a mem',
                (x.withSlots (mem.size.toUInt64 :: rest)).thread⟩) ∧
          (¬ mem.size.toNat + slot.toUInt32.toNat ≤ l.room bound →
            Execution.execute b (.plain .memoryGrow imm) x =
              .ok none (x.withSlots (0xffffffff :: rest))) ∧
          mem.size.toUInt64 ≠ 0xffffffff := by
  obtain ⟨mem₀, hallocate, hwhole₀⟩ := Memory.whole_allocate hmin hmax
  refine ⟨mem₀, hallocate, fun {s₀ a} hmem₀ {operations s} hs => ?_⟩
  obtain ⟨mem, hmem, hwhole⟩ := Store.whole_operateAll hmem₀ hwhole₀ operations
  rw [hs] at hmem
  refine ⟨mem, hmem, ?_, ?_, fun op => ?_, fun delta => ⟨fun hfits => ?_, fun hout => ?_⟩, ?_⟩
  · rw [hwhole.toNat_size]
    exact hwhole.bytes
  · rw [hwhole.toNat_size]
    exact hwhole.le_room
  · rcases Store.operate_cases hmem hwhole op with ⟨e, hrun⟩ | ⟨answer, mem', hrun, -, hle⟩
    · rw [hrun]
      exact ⟨mem, hmem, UInt32.le_refl _, fun _ _ => rfl⟩
    · rw [hrun]
      exact ⟨mem', Objects.memory_putMemory hmem mem', hle, nofun⟩
  · obtain ⟨mem', hgrew, -, hrun⟩ := Store.operate_grow_of_le hmem hwhole hfits
    exact ⟨mem', hgrew, hrun⟩
  · exact Store.operate_grow_of_lt hmem hwhole hout
  · intro b x slot rest imm hx
    have hrun := Execution.execute_memoryGrow hx imm
    refine ⟨fun hfits => ?_, fun hout => ?_, fun heq => ?_⟩
    · obtain ⟨mem', hgrow, hgrew, -⟩ := hwhole.grow_of_le hfits
      rw [hgrow] at hrun
      exact ⟨mem', hgrew, hrun⟩
    · obtain ⟨e, hgrow⟩ := hwhole.grow_of_lt hout
      rw [hgrow] at hrun
      exact hrun
    · -- There are at most 65536 pages.
      have hle := Nat.le_trans hwhole.le_room (Nat.le_trans (Memory.room_le l bound) hbound)
      have hsize := congrArg UInt64.toNat heq
      rw [UInt32.toNat_toUInt64, hwhole.toNat_size] at hsize
      rw [hsize] at hle
      exact absurd hle (by decide)

/-- A memory of at most two pages whose creator allows only one: after some operations it is whole,
and the instruction that asks for two pages more pushes the number of a failure. -/
theorem memory_operations_refused : ∃ mem₀, Memory.allocate ⟨0, some 2⟩ 1 = .ok mem₀ ∧
    let s : Store := Store.operateAll { objects := { memories := #[mem₀] } } 0
      [.grow 1, .write 65535 [7], .read 65536 1]
    let b : Bindings := { self := 0, module := {}, config := {}, memory := some 0 }
    let x : Execution := ⟨s.objects, .ofLists [2] 4 [] 0 0⟩
    ∃ mem, s.objects.memory 0 = .ok mem ∧ mem.bytes.size = 65536 * mem.size.toNat ∧
      Execution.execute b (.plain .memoryGrow .none) x = .ok none (x.withSlots [0xffffffff]) := by
  have hmin : (⟨0, some 2⟩ : Limits).min ≤ 1 := by decide
  have hmax (max : UInt32) (h : (⟨0, some 2⟩ : Limits).max = some max) :
      (⟨0, some 2⟩ : Limits).min ≤ max := by
    cases h
    decide
  obtain ⟨mem₀, hallocate, hafter⟩ := memory_operations hmin hmax (by decide)
  refine ⟨mem₀, hallocate, ?_⟩
  intro s b x
  obtain ⟨mem, hmem, hbytes, -, -, -, hinstruction⟩ := hafter (a := 0) (s := s) rfl rfl
  have hx : x.Accesses b 0 mem [2] := ⟨rfl, hmem, rfl, Nat.succ_le_succ (Nat.zero_le 3)⟩
  refine ⟨mem, hmem, hbytes, (hinstruction .none hx).2.1 fun hle => ?_⟩
  have hone : (⟨0, some 2⟩ : Limits).room 1 = 1 := rfl
  have htwo : UInt32.toNat (UInt64.toUInt32 2) = 2 := rfl
  omega

end Wasm
