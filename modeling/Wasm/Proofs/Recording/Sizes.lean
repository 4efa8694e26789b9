import Mathlib.Algebra.Order.Ring.Int
import Wasm.Module
import Wasm.Text.Utf8

/-!
# How much a module holds

What is read for a part of a module are the instructions in it, at every depth, and the elements of
its lists; the part itself counts if it is an element.  A run of locals counts once, however many
locals it declares.  The payload are the bytes of names, data segments and custom sections, which
are not read one by one.  Together they are the items of the module.

A name is a text, and what counts is how many bytes it takes in UTF-8.  These are never more than
the bytes that it is read from (`utf8ByteSize_of_decode`).
-/

namespace Wasm

/-! ### Reads and payload -/

/-- The elements of the list in an immediate, if there is one. -/
def Immediate.reads : Immediate → Nat
  | labels table _ => table.length
  | _ => 0

mutual
/-- An instruction and everything in it. -/
def Instr.reads : Instr → Nat
  | .plain _ imm => 1 + imm.reads
  | .block _ _ body => 1 + Expr.reads body
  | .ifElse _ _ thenBody elseBody => 1 + Expr.reads thenBody + Expr.reads elseBody

/-- `Instr.reads` for a sequence. -/
def Expr.reads : List Instr → Nat
  | [] => 0
  | i :: rest => i.reads + Expr.reads rest
end

/-- A function type with its parameters and results. -/
def FuncType.reads (t : FuncType) : Nat :=
  1 + t.params.length + t.results.length

/-- A global with its initial value. -/
def Global.reads (g : Global) : Nat :=
  1 + Expr.reads g.init

/-- An element segment with its offset and its functions. -/
def Element.reads (e : Element) : Nat :=
  1 + Expr.reads e.offset + e.funcs.length

/-- A function body with its runs of locals and its instructions. -/
def Code.reads (c : Code) : Nat :=
  1 + c.locals.length + Expr.reads c.body

/-- A data segment with its offset. -/
def Data.reads (d : Data) : Nat :=
  1 + Expr.reads d.offset

/-- What is read for a module. -/
def Module.reads (m : Module) : Nat :=
  (m.types.map FuncType.reads).sum + m.imports.length + m.functions.length + m.tables.length +
    m.memories.length + (m.globals.map Global.reads).sum + m.exports.length +
    (m.elements.map Element.reads).sum + (m.codes.map Code.reads).sum + (m.data.map Data.reads).sum

/-- The bytes of the two names of an import. -/
def Import.payload (i : Import) : Nat :=
  i.module.utf8ByteSize + i.name.utf8ByteSize

/-- The bytes of the name of an export. -/
def Export.payload (e : Export) : Nat :=
  e.name.utf8ByteSize

/-- The bytes of a data segment. -/
def Data.payload (d : Data) : Nat :=
  d.bytes.length

/-- The bytes of a custom section, those of its name included. -/
def Custom.payload (c : Custom) : Nat :=
  c.name.utf8ByteSize + c.bytes.length

/-- The bytes that a module holds. -/
def Module.payload (m : Module) : Nat :=
  (m.imports.map Import.payload).sum + (m.exports.map Export.payload).sum +
    (m.data.map Data.payload).sum + (m.customs.map Custom.payload).sum

/-- Everything that a module holds. -/
def Module.items (m : Module) : Nat :=
  m.reads + m.payload

/-! ### Names -/

namespace Utf8

/-- The number of bytes that characters take. -/
def size (cs : List Char) : Nat :=
  (cs.map Char.utf8Size).sum

theorem size_cons (c : Char) (cs : List Char) : size (c :: cs) = c.utf8Size + size cs := by
  rw [size, List.map_cons, List.sum_cons, size]

theorem utf8ByteSize_ofList (cs : List Char) : (String.ofList cs).utf8ByteSize = size cs := by
  induction cs with
  | nil => rfl
  | cons c cs ih =>
    rw [String.ofList_cons, String.utf8ByteSize_append, String.utf8ByteSize_singleton, ih,
      size_cons]

/-- A number that is no character is read as the first character, which takes one byte. -/
theorem utf8Size_ofNat_le {n k : Nat} (hk : 1 ≤ k) (h₂ : 0x7f < n → 2 ≤ k)
    (h₃ : 0x7ff < n → 3 ≤ k) (h₄ : 0xffff < n → 4 ≤ k) : (Char.ofNat n).utf8Size ≤ k := by
  have hle : (Char.ofNat n).toNat ≤ n := by
    by_cases h : n.isValidChar
    · rw [Char.ofNat, dif_pos h]
      exact Nat.le_of_eq rfl
    · rw [Char.ofNat, dif_neg h]
      exact Nat.zero_le _
  unfold Char.utf8Size
  simp only [UInt32.le_iff_toNat_le]
  show (if (Char.ofNat n).toNat ≤ 0x7f then 1 else if (Char.ofNat n).toNat ≤ 0x7ff then 2
    else if (Char.ofNat n).toNat ≤ 0xffff then 3 else 4) ≤ k
  split
  · exact hk
  · split
    · exact h₂ (by omega)
    · split
      · exact h₃ (by omega)
      · exact h₄ (by omega)

theorem payload_lt (b : UInt8) : payload b < 64 :=
  Nat.mod_lt _ (by decide)

/-- A character that is read from `k` bytes in front of the characters that are read from `n`. -/
theorem size_of_map {r : Except Fault (List Char)} {c : Char} {cs : List Char} {k n : Nat}
    (hc : c.utf8Size ≤ k) (hr : ∀ {cs : List Char}, r = .ok cs → size cs ≤ n)
    (h : r.map (c :: ·) = .ok cs) : size cs ≤ n + k := by
  cases r with
  | error e => cases h
  | ok cs' =>
    cases h
    have hrest := hr rfl
    rw [size_cons]
    omega

/-- No character takes more bytes than it is read from. -/
theorem size_of_decodeFrom {index : Nat} {bytes : List UInt8} {cs : List Char}
    (h : decodeFrom index bytes = .ok cs) : size cs ≤ bytes.length := by
  fun_induction decodeFrom index bytes generalizing cs
  case case1 =>
    cases h
    exact Nat.le_refl _
  -- one byte
  case case2 index a rest ha ih =>
    have hlt : a.toNat < 128 := UInt8.lt_iff_toNat_lt.mp ha
    exact size_of_map (n := rest.length) (k := 1)
      (utf8Size_ofNat_le (by omega) (by omega) (by omega) (by omega)) ih h
  -- two bytes: five bits and six
  case case4 index a _ _ b rest _ ih =>
    have hb := payload_lt b
    exact size_of_map (n := rest.length) (k := 2)
      (utf8Size_ofNat_le (by omega) (by omega) (by omega) (by omega)) ih h
  -- three bytes: four bits and twice six
  case case8 index a _ _ _ b _ c rest _ ih =>
    have hb := payload_lt b
    have hc := payload_lt c
    exact size_of_map (n := rest.length) (k := 3)
      (utf8Size_ofNat_le (by omega) (by omega) (by omega) (by omega)) ih h
  -- four bytes, the most that a character can take
  case case14 index a _ _ _ _ b _ c _ d rest _ ih =>
    exact size_of_map (n := rest.length) (k := 4)
      (utf8Size_ofNat_le (by omega) (by omega) (by omega) (by omega)) ih h
  all_goals cases h

theorem utf8ByteSize_of_decode {bytes : List UInt8} {s : String} (h : decode bytes = .ok s) :
    s.utf8ByteSize ≤ bytes.length := by
  rw [decode] at h
  cases hdecode : decodeFrom 0 bytes with
  | error e =>
    rw [hdecode] at h
    cases h
  | ok cs =>
    rw [hdecode] at h
    cases h
    rw [utf8ByteSize_ofList]
    exact size_of_decodeFrom hdecode

end Utf8

end Wasm
