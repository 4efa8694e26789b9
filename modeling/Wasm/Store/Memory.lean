import Wasm.LittleEndian
import Wasm.Trap

/-!
Linear memories.  A memory is a run of bytes, in whole pages of 64 KiB.  It grows up to its declared
maximum and to a bound set from outside, and never shrinks.  An access that is not within the memory
changes nothing.
-/

namespace Wasm

/-- A linear memory. -/
structure Memory where
  /-- The declared limits, in pages. -/
  limits : Limits
  /-- The bound on pages from the configuration. -/
  maxPages : UInt32
  bytes : ByteArray

namespace Memory

/-- The number of bytes in a page. -/
def pageSize : Nat := 65536

/-- A page that holds zeros. -/
def zeroPage : ByteArray :=
  ⟨Array.replicate pageSize 0⟩

/-- Appends pages that hold zeros. -/
def appendPages (bytes : ByteArray) : Nat → ByteArray
  | 0 => bytes
  | pages + 1 => appendPages (bytes ++ zeroPage) pages

/-- A new memory of the declared minimal size. -/
def allocate (limits : Limits) (maxPages : UInt32) : Except Error Memory :=
  if maxPages < limits.min then
    .error (.runtime Code.resourceLimit
      s!"memory needs {limits.min.toNat} pages, limit is {maxPages.toNat}")
  else .ok ⟨limits, maxPages, appendPages ByteArray.empty limits.min.toNat⟩

/-- The size in pages. -/
def size (m : Memory) : UInt32 :=
  UInt32.ofNat (m.bytes.size / pageSize)

/-- The most pages that the memory can have. -/
def bound (m : Memory) : UInt32 :=
  min (m.limits.max.getD 4294967295) m.maxPages

/-- Grows by `delta` pages of zeros, if the bound allows it, and gives the old size. -/
def grow (m : Memory) (delta : UInt32) : Except Error (UInt32 × Memory) :=
  if m.size.toNat + delta.toNat ≤ m.bound.toNat then
    .ok (m.size, { m with bytes := appendPages m.bytes delta.toNat })
  else
    .error (.runtime Code.resourceLimit
      (s!"cannot grow memory from {m.size.toNat} by {delta.toNat} pages, " ++
        s!"maximum is {m.bound.toNat}"))

/-- Whether `length` bytes at `offset` lie within the memory. -/
def inBounds (m : Memory) (offset length : Nat) : Prop :=
  offset + length ≤ m.bytes.size

instance (m : Memory) (offset length : Nat) : Decidable (m.inBounds offset length) :=
  inferInstanceAs (Decidable (_ ≤ _))

/-- The trap of an access that is not within the memory. -/
def outOfBounds (m : Memory) (offset length : Nat) : Trap :=
  .memoryOutOfBounds length offset m.bytes.size

/-- The byte at an index. -/
def byte (m : Memory) (i : Nat) : UInt8 :=
  m.bytes.get! i

/-- The `length` bytes at `offset`. -/
def read (m : Memory) (offset length : Nat) : Except Trap (List UInt8) :=
  if m.inBounds offset length then .ok ((List.range length).map fun i => m.byte (offset + i))
  else .error (m.outOfBounds offset length)

/-- Puts bytes in a row, from `offset` on. -/
def setBytes (bytes : ByteArray) (offset : Nat) : List UInt8 → ByteArray
  | [] => bytes
  | b :: rest => setBytes (bytes.set! offset b) (offset + 1) rest

/-- The memory with other bytes from `offset` on. -/
def put (m : Memory) (offset : Nat) (data : List UInt8) : Memory :=
  { m with bytes := setBytes m.bytes offset data }

/-- Replaces the bytes at `offset`. -/
def write (m : Memory) (offset : Nat) (data : List UInt8) : Except Trap Memory :=
  if m.inBounds offset data.length then .ok (m.put offset data)
  else .error (m.outOfBounds offset data.length)

end Memory

end Wasm
