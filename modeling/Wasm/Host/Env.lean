import Wasm.Host.Native

/-!
The module `env` of the command line: printing of characters, and assertions.  Floats are compared
as numbers, so an assertion about NaN always fails.
-/

namespace Wasm.Env

/-- The name of the module. -/
def name : String := "env"

/-- Fails unless two values are equal as numbers. -/
def assertEq (lhs rhs : Value) : Proc :=
  if lhs.numericEq rhs then .done (.ok [])
  else .done (.error (.ofCode Code.hostFailed s!"assertion failed: {lhs.text} != {rhs.text}"))

/-- The character with a code point; where there is none, the replacement character. -/
def character (code : UInt32) : Char :=
  if code.toNat.isValidChar then Char.ofNat code.toNat else '\ufffd'

/-- Prints one character. -/
def printChar : List Value → Proc
  | [.i32 code] => .emit (.printed (character code).toString) (.done (.ok []))
  | _ => .done (.ok [])

/-- Fails unless the only argument is the expected one. -/
def expect (expected : Value) : List Value → Proc
  | [actual] => assertEq actual expected
  | _ => .done (.error (.ofCode Code.argumentMismatch "expected one argument"))

/-- Fails unless the two arguments are equal. -/
def assertPair : List Value → Proc
  | [lhs, rhs] => assertEq lhs rhs
  | _ => .done (.error (.ofCode Code.argumentMismatch "expected two arguments"))

/-- A function that returns nothing. -/
def function (params : List ValueType) (run : List Value → Proc) : Member :=
  .func (.host ⟨params, []⟩ run)

/-- The module. -/
def module : NativeModule where
  name := name
  members := [
    ("assert_eq_f32", function [.f32, .f32] assertPair),
    ("assert_eq_f64", function [.f64, .f64] assertPair),
    ("assert_eq_i32", function [.i32, .i32] assertPair),
    ("assert_eq_i64", function [.i64, .i64] assertPair),
    ("assert_false", function [.i32] (expect (.i32 0))),
    ("assert_true", function [.i32] (expect (.i32 1))),
    ("print_char", function [.i32] printChar)]

end Wasm.Env
