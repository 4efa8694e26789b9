import Mathlib.Data.List.Forall2
import Wasm.Machine.Execute
import Wasm.Proofs.Encoding.Numbers

/-!
# Slots of a type

A slot has 64 bits, whatever it holds.  One that holds a 32-bit number is *canonical* if its upper
half is zero: then the value says all about the slot (`toSlot_ofSlot`).  Every primitive that makes
a slot makes a canonical one of its type, whatever it makes it from.

`OfTypes` is about slots on a stack, and takes a stack of types apart where the types are
(`ofTypes_append`).
-/

namespace Wasm

/-- In a slot that holds a 32-bit number the upper half is zero. -/
def ValueType.Canonical (t : ValueType) (slot : UInt64) : Prop :=
  t = .i32 ∨ t = .f32 → slot.toNat < 4294967296

namespace ValueType

theorem canonical_zero (t : ValueType) : t.Canonical 0 :=
  fun _ => by decide

theorem canonical_toUInt64 (t : ValueType) (bits : UInt32) : t.Canonical bits.toUInt64 := by
  intro _
  rw [UInt32.toNat_toUInt64]
  exact bits.toNat_lt

theorem canonical_toSlot (v : Value) : v.type.Canonical v.toSlot := by
  cases v with
  | i32 bits | f32 bits => exact canonical_toUInt64 _ bits
  | i64 bits | f64 bits => exact fun h => by rcases h with h | h <;> cases h

/-- A canonical slot is the slot of the value that it holds. -/
theorem toSlot_ofSlot {t : ValueType} {slot : UInt64} (h : t.Canonical slot) :
    (Value.ofSlot t slot).toSlot = slot := by
  have hhalf (hlt : slot.toNat < 4294967296) : slot.toUInt32.toUInt64 = slot := by
    apply UInt64.toNat.inj
    rw [UInt32.toNat_toUInt64, UInt64.toNat_toUInt32]
    exact Nat.mod_eq_of_lt hlt
  cases t with
  | i32 => exact hhalf (h (.inl rfl))
  | f32 => exact hhalf (h (.inr rfl))
  | i64 | f64 => rfl

/-- The slot of a word of the width of a type. -/
theorem canonical_slot {t : ValueType} {w : Width} (ht : t = .int w ∨ t = .float w)
    (a : BitVec w.bits) : t.Canonical (w.slot a) := by
  intro h32
  have hw : w = .w32 := by
    cases w with
    | w32 => rfl
    | w64 => rcases ht with rfl | rfl <;> rcases h32 with h | h <;> cases h
  subst hw
  show (a.setWidth 64).toNat < _
  rw [BitVec.toNat_setWidth]
  exact Nat.lt_of_le_of_lt (Nat.mod_le _ _) a.isLt

/-- The slot of a word that may be missing. -/
theorem canonical_of_map {t : ValueType} {w : Width} {r : Except Trap (BitVec w.bits)}
    {slot : UInt64} (ht : t = .int w ∨ t = .float w) (h : r.map w.slot = .ok slot) :
    t.Canonical slot := by
  cases r with
  | error e => cases h
  | ok a =>
    cases h
    exact canonical_slot ht a

theorem canonical_boolSlot (t : ValueType) (b : Bool) : t.Canonical (boolSlot b) := by
  intro _
  cases b <;> decide

/-- What is read from as many bytes as a value of the type has. -/
theorem canonical_decode {t : ValueType} {data : List UInt8} (h : data.length = t.bytes) :
    t.Canonical (UInt64.ofNat (LittleEndian.decode data)) := by
  intro h32
  have hbytes : data.length = 4 := by rcases h32 with rfl | rfl <;> exact h
  have hlt := LittleEndian.decode_lt data
  rw [hbytes] at hlt
  rw [UInt64.toNat_ofNat']
  exact Nat.lt_of_le_of_lt (Nat.mod_le _ _) hlt

theorem canonical_extendPart {w : Width} (p : Part w) (s : Sign) (n : Nat) :
    (ValueType.int w).Canonical (Execution.extendPart p s n) := by
  cases s <;> exact canonical_slot (.inl rfl) _

end ValueType

/-! ### Numeric operators -/

/-- The slot that an operator gives is canonical. -/
def Operator.Gives (t : ValueType) : Operator → Prop
  | .unary eval => ∀ {a slot}, eval a = .ok slot → t.Canonical slot
  | .binary eval => ∀ {a a' slot}, eval a a' = .ok slot → t.Canonical slot

theorem Conversion.canonical_eval {c : Conversion} {a slot : UInt64} {t : ValueType}
    (ht : t ∈ c.signature.results) (h : c.eval a = .ok slot) : t.Canonical slot := by
  cases c <;> obtain rfl := List.mem_singleton.mp ht
  case trunc => exact ValueType.canonical_of_map (.inl rfl) h
  all_goals cases h
  case wrap => exact ValueType.canonical_slot (w := .w32) (.inl rfl) _
  case widen => exact ValueType.canonical_slot (w := .w64) (.inl rfl) _
  case demote => exact ValueType.canonical_slot (w := .w32) (.inr rfl) _
  case promote => exact ValueType.canonical_slot (w := .w64) (.inr rfl) _
  case convert => exact ValueType.canonical_slot (.inr rfl) _
  case bitsOfFloat => exact ValueType.canonical_slot (.inl rfl) _
  case floatOfBits => exact ValueType.canonical_slot (.inr rfl) _

/-- A numeric operator gives a canonical slot of its result type, whatever its operands are. -/
theorem Opcode.gives_operator {op : Opcode} {f : Operator} {sig : FuncType} {t : ValueType}
    (hf : op.operator? = some f) (hsig : op.signature? = some sig) (ht : t ∈ sig.results) :
    f.Gives t := by
  cases op <;> simp only [operator?, reduceCtorEq, Option.some.injEq] at hf <;> subst hf <;>
    simp only [signature?, Option.some.injEq] at hsig <;> subst hsig
  case conversion c => exact fun h => c.canonical_eval ht h
  all_goals obtain rfl := List.mem_singleton.mp ht
  case intBinary => exact fun h => ValueType.canonical_of_map (.inl rfl) h
  case intEqz => exact fun h => by cases h; exact ValueType.canonical_boolSlot _ _
  case intCompare => exact fun h => by cases h; exact ValueType.canonical_boolSlot _ _
  case floatCompare => exact fun h => by cases h; exact ValueType.canonical_boolSlot _ _
  case intUnary => exact fun h => by cases h; exact ValueType.canonical_slot (.inl rfl) _
  case extend => exact fun h => by cases h; exact ValueType.canonical_slot (.inl rfl) _
  case floatUnary => exact fun h => by cases h; exact ValueType.canonical_slot (.inr rfl) _
  case floatBinary => exact fun h => by cases h; exact ValueType.canonical_slot (.inr rfl) _

theorem TruncSat.canonical_eval (t : TruncSat) (a : UInt64) :
    (ValueType.int t.target).Canonical (t.eval a) :=
  ValueType.canonical_slot (.inl rfl) _

/-! ### Stacks of slots -/

/-- The slots on a stack, the top first, are canonical slots of the types, of which the last one is
that of the top. -/
def OfTypes (ts : List ValueType) (slots : List UInt64) : Prop :=
  List.Forall₂ ValueType.Canonical ts slots.reverse

variable {t : ValueType} {ts us : List ValueType} {slot : UInt64} {slots above below : List UInt64}

theorem OfTypes.length_eq (h : OfTypes ts slots) : slots.length = ts.length := by
  have hlength := List.Forall₂.length_eq h
  rw [List.length_reverse] at hlength
  exact hlength.symm

theorem ofTypes_nil : OfTypes [] [] :=
  .nil

theorem ofTypes_append : OfTypes (ts ++ us) slots ↔
    ∃ above below, slots = above ++ below ∧ OfTypes us above ∧ OfTypes ts below := by
  constructor
  · intro h
    have habove := List.forall₂_drop ts.length h
    have hbelow := List.forall₂_take ts.length h
    rw [List.drop_left] at habove
    rw [List.take_left] at hbelow
    refine ⟨(slots.reverse.drop ts.length).reverse, (slots.reverse.take ts.length).reverse,
      ?_, ?_, ?_⟩
    · rw [← List.reverse_append, List.take_append_drop, List.reverse_reverse]
    · rwa [OfTypes, List.reverse_reverse]
    · rwa [OfTypes, List.reverse_reverse]
  · rintro ⟨above, below, rfl, habove, hbelow⟩
    rw [OfTypes, List.reverse_append]
    exact List.rel_append hbelow habove

theorem OfTypes.append (hbelow : OfTypes ts below) (habove : OfTypes us above) :
    OfTypes (ts ++ us) (above ++ below) :=
  ofTypes_append.mpr ⟨above, below, rfl, habove, hbelow⟩

theorem ofTypes_concat : OfTypes (ts ++ [t]) slots ↔
    ∃ slot rest, slots = slot :: rest ∧ t.Canonical slot ∧ OfTypes ts rest := by
  constructor
  · intro h
    obtain ⟨above, rest, rfl, habove, hrest⟩ := ofTypes_append.mp h
    obtain ⟨slot, rfl⟩ := List.length_eq_one_iff.mp habove.length_eq
    exact ⟨slot, rest, rfl, (List.forall₂_cons.mp habove).1, hrest⟩
  · rintro ⟨slot, rest, rfl, hslot, hrest⟩
    have htop : OfTypes [t] [slot] := .cons hslot .nil
    exact hrest.append htop

/-- One of some typed slots, by its position from the bottom. -/
theorem canonical_of_getElem? {x : Nat} (h : List.Forall₂ ValueType.Canonical ts slots)
    (ht : ts[x]? = some t) (hslot : slots[x]? = some slot) : t.Canonical slot := by
  obtain ⟨hx, rfl⟩ := List.getElem?_eq_some_iff.mp ht
  obtain ⟨hx', rfl⟩ := List.getElem?_eq_some_iff.mp hslot
  exact h.get hx hx'

/-- Replacing one of some typed slots. -/
theorem forall₂_set {x : Nat} (h : List.Forall₂ ValueType.Canonical ts slots)
    (ht : ts[x]? = some t) (hslot : t.Canonical slot) :
    List.Forall₂ ValueType.Canonical ts (slots.set x slot) := by
  induction h generalizing x with
  | nil => cases ht
  | cons hfirst hrest ih =>
    cases x with
    | zero =>
      cases ht
      exact .cons hslot hrest
    | succ x => exact .cons hfirst (ih ht)

/-- The locals of a call that are no arguments. -/
theorem ofTypes_replicate_zero (ts : List ValueType) : OfTypes ts (List.replicate ts.length 0) := by
  rw [OfTypes, List.reverse_replicate]
  induction ts with
  | nil => exact .nil
  | cons t ts ih => exact .cons t.canonical_zero ih

/-- What values from outside become. -/
theorem ofTypes_map_toSlot (values : List Value) :
    OfTypes (values.map Value.type) (values.map Value.toSlot).reverse := by
  rw [OfTypes, List.reverse_reverse]
  induction values with
  | nil => exact .nil
  | cons v values ih => exact .cons (ValueType.canonical_toSlot v) ih

/-- As many slots as types hold values of these types. -/
theorem OfTypes.map_type (h : OfTypes ts slots) :
    ((ts.zip slots.reverse).map fun (t, slot) => Value.ofSlot t slot).map Value.type = ts := by
  rw [List.map_map]
  refine (List.map_congr_left fun x _ => Value.type_ofSlot x.1 x.2).trans ?_
  exact List.map_fst_zip (Nat.le_of_eq (List.Forall₂.length_eq h))

/-- Slots of some types are those of the values that they hold. -/
theorem OfTypes.map_toSlot (h : OfTypes ts slots) :
    ((ts.zip slots.reverse).map fun (t, slot) => Value.ofSlot t slot).map Value.toSlot =
      slots.reverse := by
  rw [OfTypes] at h
  generalize slots.reverse = pushed at h ⊢
  induction h with
  | nil => rfl
  | cons hslot _ ih =>
    simp only [List.zip_cons_cons, List.map_cons]
    rw [ValueType.toSlot_ofSlot hslot, ih]

end Wasm
