/-!
UTF-8 as names in a binary module use it.  `Utf8.decode` reads a whole byte string or says where
and how it stops being UTF-8: at an ill-formed part, with the length of that part, or in the middle
of a sequence that is well formed so far.
-/

namespace Wasm.Utf8

/-- Where a byte string stops being UTF-8. -/
inductive Fault where
  /-- An ill-formed part of `length` bytes that starts at `index`. -/
  | illFormed (index length : Nat)
  /-- The string ends inside the sequence that starts at `index`. -/
  | incomplete (index : Nat)
deriving Repr, DecidableEq

/-- The text of a fault. -/
def Fault.message : Fault → String
  | .illFormed index length => s!"invalid utf-8 sequence of {length} bytes from index {index}"
  | .incomplete index => s!"incomplete utf-8 byte sequence from index {index}"

/-- A byte `10xxxxxx`. -/
def isContinuation (b : UInt8) : Bool :=
  0x80 ≤ b && b ≤ 0xbf

/-- The bytes that may follow the first byte of a three-byte sequence: no overlong form, no
surrogate. -/
def isSecondOfThree (a b : UInt8) : Bool :=
  if a == 0xe0 then 0xa0 ≤ b && b ≤ 0xbf
  else if a == 0xed then 0x80 ≤ b && b ≤ 0x9f
  else isContinuation b

/-- The bytes that may follow the first byte of a four-byte sequence: no overlong form, nothing
above the last code point. -/
def isSecondOfFour (a b : UInt8) : Bool :=
  if a == 0xf0 then 0x90 ≤ b && b ≤ 0xbf
  else if a == 0xf4 then 0x80 ≤ b && b ≤ 0x8f
  else isContinuation b

/-- The payload bits of a continuation byte. -/
def payload (b : UInt8) : Nat :=
  b.toNat % 64

/-- Reads a byte string from `index` on. -/
def decodeFrom (index : Nat) : List UInt8 → Except Fault (List Char)
  | [] => .ok []
  | a :: rest =>
    if a < 0x80 then
      (decodeFrom (index + 1) rest).map (Char.ofNat a.toNat :: ·)
    else if 0xc2 ≤ a && a ≤ 0xdf then
      match rest with
      | [] => .error (.incomplete index)
      | b :: rest =>
        if isContinuation b then
          (decodeFrom (index + 2) rest).map (Char.ofNat (a.toNat % 32 * 64 + payload b) :: ·)
        else .error (.illFormed index 1)
    else if 0xe0 ≤ a && a ≤ 0xef then
      match rest with
      | [] => .error (.incomplete index)
      | b :: rest =>
        if isSecondOfThree a b then
          match rest with
          | [] => .error (.incomplete index)
          | c :: rest =>
            if isContinuation c then
              (decodeFrom (index + 3) rest).map
                (Char.ofNat (a.toNat % 16 * 4096 + payload b * 64 + payload c) :: ·)
            else .error (.illFormed index 2)
        else .error (.illFormed index 1)
    else if 0xf0 ≤ a && a ≤ 0xf4 then
      match rest with
      | [] => .error (.incomplete index)
      | b :: rest =>
        if isSecondOfFour a b then
          match rest with
          | [] => .error (.incomplete index)
          | c :: rest =>
            if isContinuation c then
              match rest with
              | [] => .error (.incomplete index)
              | d :: rest =>
                if isContinuation d then
                  (decodeFrom (index + 4) rest).map
                    (Char.ofNat
                      (a.toNat % 8 * 262144 + payload b * 4096 + payload c * 64 + payload d) :: ·)
                else .error (.illFormed index 3)
            else .error (.illFormed index 2)
        else .error (.illFormed index 1)
    else .error (.illFormed index 1)

/-- The text that a byte string encodes. -/
def decode (bytes : List UInt8) : Except Fault String :=
  (decodeFrom 0 bytes).map String.ofList

/-- The bytes that encode a text. -/
def encode (s : String) : List UInt8 :=
  s.toUTF8.toList

end Wasm.Utf8
