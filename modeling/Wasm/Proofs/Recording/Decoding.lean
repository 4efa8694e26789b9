import Wasm.Binary.Module
import Wasm.Proofs.Recording.Recorded

/-!
# What a reader reads on its way

A `Scan` is a reader that records where it goes: every cursor that it comes to, and for each element
of a list and each instruction where it begins to be read and, if this succeeds, where it has been
read.  The readers of numbers and of bytes are single steps; the readers that are put together from
them can be run as scans, since they are written for any monad with a `Recorder`.

In the loop that reads instructions every round is noted, the last one too, which reads the byte
that closes the sequence.
-/

namespace Wasm.Binary

/-- Something that happens while a reader is at work. -/
inductive Mark where
  /-- The reader has come to a cursor. -/
  | passed (c : Cursor)
  /-- An element or an instruction begins to be read. -/
  | began (c : Cursor)
  /-- An element or an instruction has been read. -/
  | ended (start stop : Cursor)
deriving Repr, DecidableEq

/-- A reader that records what happens. -/
abbrev Scan (α : Type) := Recorded Mark Cursor α

instance : MonadLift Reader Scan := ⟨Recorded.step .passed⟩

namespace Scan

/-- The reading of an element or an instruction. -/
def noted {α : Type} (r : Scan α) : Scan α := fun c =>
  match r c with
  | (record, .ok (a, c')) => (.began c :: (record ++ [.ended c c']), .ok (a, c'))
  | (record, .error e) => (.began c :: record, .error e)

instance : Recorder Scan := ⟨Recorded.within, noted⟩

/-- Instructions up to the byte that closes them. -/
abbrev instrs (fuel : Nat) : Scan (Expr × Terminator) :=
  Reader.instrs fuel

/-- A sequence of instructions and the `end` that closes it. -/
abbrev expr : Scan Expr :=
  Reader.closedSequence

/-- A module, up to the end of the input. -/
abbrev module : Scan Module :=
  Reader.module

end Scan

end Wasm.Binary
