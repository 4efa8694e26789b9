import Wasm.Proofs.Encoding.Encoder
import Wasm.Proofs.Encoding.Numbers
import Wasm.Proofs.Encoding.Texts

/-!
# Reading back what was written

`Reads r bytes a` says that the reader `r`, wherever it meets `bytes`, consumes exactly these and
gives `a`.  Readers in a row read the concatenation of what they read (`Reads.bind`), so what is
proved about the parts of a grammar carries over to the whole.  A list says how long it is by a
32-bit count; that the count is not too large follows from a bound on its bytes, since every item
takes at least one.
-/

namespace Wasm.Binary

/-- The reader consumes exactly the bytes, whatever follows them, and gives the value. -/
def Reads {α : Type} (r : Reader α) (bytes : List UInt8) (a : α) : Prop :=
  ∀ (offset : Nat) (rest : List UInt8),
    r ⟨offset, bytes ++ rest⟩ = .ok (a, ⟨offset + bytes.length, rest⟩)

variable {α β : Type} {r : Reader α} {bytes bytes' : List UInt8} {a : α} {b : β}

theorem bind_ok {f : α → Reader β} {c c' : Cursor} (h : r c = .ok (a, c')) :
    (r >>= f) c = f a c' := by
  show (r c).bind _ = _
  rw [h]
  rfl

theorem bind_eq_ok {f : α → Reader β} {c c' : Cursor} (h : (r >>= f) c = .ok (b, c')) :
    ∃ a c₁, r c = .ok (a, c₁) ∧ f a c₁ = .ok (b, c') := by
  replace h : (r c).bind (fun p => f p.1 p.2) = .ok (b, c') := h
  cases hr : r c with
  | error e =>
    rw [hr] at h
    cases h
  | ok p =>
    rw [hr] at h
    exact ⟨p.1, p.2, rfl, h⟩

theorem bind_eq_error {f : α → Reader β} {c : Cursor} {e : Error} (h : (r >>= f) c = .error e) :
    r c = .error e ∨ ∃ a c₁, r c = .ok (a, c₁) ∧ f a c₁ = .error e := by
  replace h : (r c).bind (fun p => f p.1 p.2) = .error e := h
  cases hr : r c with
  | error e =>
    rw [hr] at h
    cases h
    exact .inl rfl
  | ok p =>
    rw [hr] at h
    exact .inr ⟨p.1, p.2, rfl, h⟩

theorem reads_pure (a : α) : Reads (pure a) [] a := fun _ _ => rfl

theorem Reads.bind {f : α → Reader β} (hr : Reads r bytes a) (hf : Reads (f a) bytes' b) :
    Reads (r >>= f) (bytes ++ bytes') b := by
  intro offset rest
  rw [List.append_assoc, bind_ok (hr offset (bytes' ++ rest)), hf, List.length_append,
    Nat.add_assoc]

/-- A reader that consumes nothing more after the first part. -/
theorem Reads.bind_nil {f : α → Reader β} (hr : Reads r bytes a) (hf : Reads (f a) [] b) :
    Reads (r >>= f) bytes b := by
  have h := hr.bind hf
  rwa [List.append_nil] at h

theorem Reads.map (f : α → β) (hr : Reads r bytes a) : Reads (f <$> r) bytes (f a) := by
  rw [map_eq_pure_bind]
  exact hr.bind_nil (reads_pure (f a))

theorem Reads.within (hr : Reads r bytes a) (outer : Unit → String) :
    Reads (Recorder.within outer r) bytes a := by
  intro offset rest
  show withContext outer (r _) = _
  rw [hr]
  rfl

/-- What a reader reads is the same for the same input. -/
theorem Reads.unique {a' : α} {rest rest' : List UInt8} (h : Reads r bytes a)
    (h' : Reads r bytes' a') (heq : bytes ++ rest = bytes' ++ rest') :
    bytes = bytes' ∧ rest = rest' ∧ a = a' := by
  have hrun := (h 0 rest).symm.trans (heq ▸ h' 0 rest')
  simp only [Except.ok.injEq, Prod.mk.injEq, Cursor.mk.injEq] at hrun
  obtain ⟨ha, -, rfl⟩ := hrun
  exact ⟨List.append_cancel_right heq, rfl, ha⟩

theorem reads_offset {f : Nat → Reader β} (h : ∀ n, Reads (f n) bytes b) :
    Reads (Reader.offset >>= f) bytes b :=
  fun offset rest => h offset offset rest

/-! ### Bytes and numbers -/

theorem reads_byte (b : UInt8) : Reads Reader.byte [b] b := fun _ _ => rfl

theorem reads_bytesOf (what : String) (bs : List UInt8) :
    Reads (Reader.bytesOf what bs.length) bs bs := by
  intro offset rest
  rw [Reader.bytesOf, if_pos (by simp), List.take_left, List.drop_left]

theorem reads_unsigned {bits n : Nat} (h : n < 2 ^ bits) :
    Reads (Reader.unsigned bits) (Varint.encodeUnsigned n) n := by
  intro offset rest
  rw [Reader.unsigned]
  dsimp only
  rw [Varint.decodeUnsigned_encodeUnsigned h]
  dsimp only
  rw [List.drop_left]

theorem reads_signed {bits : Nat} {n : Int} (hpos : 0 < bits) (hlo : -2 ^ (bits - 1) ≤ n)
    (hhi : n < 2 ^ (bits - 1)) : Reads (Reader.signed bits) (Varint.encodeSigned n) n := by
  intro offset rest
  rw [Reader.signed]
  dsimp only
  rw [Varint.decodeSigned_encodeSigned hpos hlo hhi]
  dsimp only
  rw [List.drop_left]

theorem reads_u32 (n : UInt32) : Reads Reader.u32 (Writer.u32 n) n := by
  have h := (@reads_unsigned 32 n.toNat n.toNat_lt).map UInt32.ofNat
  rwa [UInt32.ofNat_toNat] at h

/-- A count or size that fits 32 bits. -/
theorem reads_size {n : Nat} (h : n < 4294967296) :
    Reads Reader.u32 (Writer.size n) (UInt32.ofNat n) := by
  rw [Writer.size, Nat.mod_eq_of_lt h]
  exact (@reads_unsigned 32 n h).map UInt32.ofNat

theorem toNat_ofNat_size {n : Nat} (h : n < 4294967296) : (UInt32.ofNat n).toNat = n :=
  UInt32.toNat_ofNat_of_lt' h

/-- A signed number is the number of the bits, or that less the modulus. -/
theorem toInt_toInt32 (bits : UInt32) :
    bits.toInt32.toInt =
      if 2 * bits.toNat < 2 ^ 32 then (bits.toNat : Int) else bits.toNat - 2 ^ 32 :=
  BitVec.toInt_eq_toNat_cond bits.toBitVec

theorem toInt_toInt64 (bits : UInt64) :
    bits.toInt64.toInt =
      if 2 * bits.toNat < 2 ^ 64 then (bits.toNat : Int) else bits.toNat - 2 ^ 64 :=
  BitVec.toInt_eq_toNat_cond bits.toBitVec

theorem reads_i32 (bits : UInt32) :
    Reads Reader.i32 (Varint.encodeSigned bits.toInt32.toInt) bits := by
  have hlt : bits.toNat < 2 ^ 32 := bits.toNat_lt
  have hint := toInt_toInt32 bits
  have hread := (@reads_signed 32 bits.toInt32.toInt (by omega) (by omega) (by omega)).map
    fun n => UInt32.ofNat (n % 4294967296).toNat
  have hback : (bits.toInt32.toInt % 4294967296).toNat = bits.toNat := by omega
  rwa [hback, UInt32.ofNat_toNat] at hread

theorem reads_i64 (bits : UInt64) :
    Reads Reader.i64 (Varint.encodeSigned bits.toInt64.toInt) bits := by
  have hlt : bits.toNat < 2 ^ 64 := bits.toNat_lt
  have hint := toInt_toInt64 bits
  have hread := (@reads_signed 64 bits.toInt64.toInt (by omega) (by omega) (by omega)).map
    fun n => UInt64.ofNat (n % 18446744073709551616).toNat
  have hback : (bits.toInt64.toInt % 18446744073709551616).toNat = bits.toNat := by omega
  rwa [hback, UInt64.ofNat_toNat] at hread

theorem reads_u32Fixed (n : UInt32) :
    Reads Reader.u32Fixed (LittleEndian.encode 4 n.toNat) n := by
  have h := (reads_bytesOf "u32" (LittleEndian.encode 4 n.toNat)).map
    fun bs => UInt32.ofNat (LittleEndian.decode bs)
  rwa [LittleEndian.decode_encode n.toNat_lt, UInt32.ofNat_toNat, LittleEndian.length_encode] at h

theorem reads_f32 (bits : UInt32) : Reads Reader.f32 (LittleEndian.encode 4 bits.toNat) bits := by
  have h := (reads_bytesOf "f32" (LittleEndian.encode 4 bits.toNat)).map
    fun bs => UInt32.ofNat (LittleEndian.decode bs)
  rwa [LittleEndian.decode_encode bits.toNat_lt, UInt32.ofNat_toNat,
    LittleEndian.length_encode] at h

theorem reads_f64 (bits : UInt64) : Reads Reader.f64 (LittleEndian.encode 8 bits.toNat) bits := by
  have h := (reads_bytesOf "f64" (LittleEndian.encode 8 bits.toNat)).map
    fun bs => UInt64.ofNat (LittleEndian.decode bs)
  rwa [LittleEndian.decode_encode bits.toNat_lt, UInt64.ofNat_toNat,
    LittleEndian.length_encode] at h

/-! ### Names, types and lists -/

@[simp] theorem size_ne_nil (n : Nat) : Writer.size n ≠ [] :=
  Varint.encodeUnsigned_ne_nil _

@[simp] theorem u32_ne_nil (n : UInt32) : Writer.u32 n ≠ [] :=
  Varint.encodeUnsigned_ne_nil n.toNat

@[simp] theorem name_ne_nil (s : String) : Writer.name s ≠ [] := by
  simp [Writer.name]

@[simp] theorem list_ne_nil {α : Type} (write : α → List UInt8) (items : List α) :
    Writer.list write items ≠ [] := by
  simp [Writer.list]

theorem reads_name {s : String} (h : (Writer.name s).length < 4294967296) :
    Reads Reader.name (Writer.name s) s := by
  have hsize : (Utf8.encode s).length < 4294967296 := by
    rw [Writer.name, List.length_append] at h
    omega
  refine reads_offset fun start => (reads_size hsize).bind ?_
  rw [toNat_ofNat_size hsize]
  intro offset rest
  have hrest : ¬ (Utf8.encode s ++ rest).length < (Utf8.encode s).length := by simp
  rw [bind_ok (r := liftM Reader.remaining) rfl, if_neg hrest]
  show (Reader.bytesOf _ _ >>= _) _ = _
  rw [bind_ok (reads_bytesOf "byte sequence" (Utf8.encode s) offset rest), Utf8.decode_encode]
  rfl

theorem reads_valueType (t : ValueType) : Reads Reader.valueType (Writer.valueType t) t := by
  refine reads_offset fun start => (reads_byte t.byte).bind_nil (Reads.within ?_ _)
  intro offset rest
  show Reader.asValueType t.byte _ = _
  rw [Reader.asValueType, ValueType.ofByte, ValueType.ofByte?_byte]
  rfl

theorem reads_items {read : Nat → Reader α} {write : α → List UInt8} {items : List α}
    (h : ∀ x ∈ items, ∀ k, Reads (read k) (write x) x) (index : Nat) :
    Reads (Reader.items read items.length index) (items.flatMap write) items := by
  induction items generalizing index with
  | nil => exact reads_pure []
  | cons x items ih =>
    rw [List.flatMap_cons]
    refine (h x (by simp) index).bind ?_
    exact (ih (fun y hy => h y (List.mem_cons_of_mem x hy)) (index + 1)).bind_nil (reads_pure _)

theorem length_le_length_flatMap {write : α → List UInt8} (hpos : ∀ x, write x ≠ [])
    (items : List α) : items.length ≤ (items.flatMap write).length := by
  induction items with
  | nil => simp
  | cons x items ih =>
    have := List.length_pos_iff.mpr (hpos x)
    rw [List.flatMap_cons, List.length_append, List.length_cons]
    omega

theorem length_le_of_mem {write : α → List UInt8} {items : List α} {x : α} (hx : x ∈ items) :
    (write x).length ≤ (items.flatMap write).length := by
  obtain ⟨before, after, rfl⟩ := List.append_of_mem hx
  rw [List.flatMap_append, List.flatMap_cons, List.length_append, List.length_append]
  omega

theorem reads_numberedList {read : Nat → Reader α} {write : α → List UInt8} {items : List α}
    (hpos : ∀ x, write x ≠ []) (hsize : (Writer.list write items).length < 4294967296)
    (h : ∀ x ∈ items, (write x).length < 4294967296 → ∀ k, Reads (read k) (write x) x) :
    Reads (Reader.numberedList read) (Writer.list write items) items := by
  have hcount := length_le_length_flatMap hpos items
  rw [Writer.list, List.length_append] at hsize
  have hlt : items.length < 4294967296 := by omega
  refine (reads_size hlt).bind ?_
  rw [toNat_ofNat_size hlt]
  refine reads_items (fun x hx k => h x hx ?_ k) 0
  have := @length_le_of_mem _ write _ _ hx
  omega

theorem reads_list {read : Reader α} {write : α → List UInt8} {items : List α}
    (hpos : ∀ x, write x ≠ []) (hsize : (Writer.list write items).length < 4294967296)
    (h : ∀ x ∈ items, (write x).length < 4294967296 → Reads read (write x) x) :
    Reads (Reader.list read) (Writer.list write items) items :=
  reads_numberedList hpos hsize fun x hx hlt _ => h x hx hlt

end Wasm.Binary
