import Wasm.Proofs.Errors.Categories
import Wasm.Session

/-!
# Failures of the host side

What the parts of the host side that can fail fail with: the checks of arguments and results,
exports and members that are not there, limits on memories and tables, signatures, and the registry.
-/

namespace Wasm

variable {e : Error} {name : String}

/-! ### Calls -/

theorem FuncType.checkEach_error {index : Nat} {given expected : List ValueType}
    (h : FuncType.checkEach index given expected = .error e) :
    ∃ message, e = .runtime Code.argumentMismatch message := by
  induction given generalizing index expected with
  | nil => cases h
  | cons g given ih =>
    cases expected with
    | nil => cases h
    | cons t expected =>
      rw [FuncType.checkEach] at h
      split at h
      · exact ih h
      · cases h
        exact ⟨_, rfl⟩

theorem FuncType.checkArgs_error {type : FuncType} {given : List ValueType}
    (h : type.checkArgs given = .error e) :
    ∃ message, e = .runtime Code.argumentMismatch message := by
  unfold FuncType.checkArgs at h
  split at h
  · cases h
    exact ⟨_, rfl⟩
  · exact FuncType.checkEach_error h

theorem FuncType.checkResults_error {type : FuncType} {given : List ValueType}
    (h : type.checkResults given = .error e) :
    ∃ message, e = .runtime Code.hostFailed message := by
  unfold FuncType.checkResults at h
  split at h
  · cases h
  · cases h
    exact ⟨_, rfl⟩

/-! ### Exports and members -/

theorem Bindings.exportIndex_error {b : Bindings} {kind : ExternKind}
    (h : b.exportIndex kind name = .error e) :
    ∃ message, e = .runtime Code.exportNotFound message := by
  unfold Bindings.exportIndex at h
  split at h
  · split at h
    · cases h
    · cases h
      exact ⟨_, rfl⟩
  · cases h
    exact ⟨_, rfl⟩

theorem NativeModule.func_error {m : NativeModule} (h : m.func name = .error e) :
    ∃ message, e = .runtime Code.exportNotFound message := by
  unfold NativeModule.func at h
  split at h
  · cases h
  · cases h
    exact ⟨_, rfl⟩

theorem NativeModule.globalAt_error {m : NativeModule} (h : m.globalAt name = .error e) :
    ∃ message, e = .runtime Code.exportNotFound message := by
  unfold NativeModule.globalAt at h
  split at h
  · cases h
  · cases h
    exact ⟨_, rfl⟩

/-! ### Signatures and the registry -/

theorem Signature.parse_error {text : String} (h : Signature.parse text = .error e) :
    ∃ message, e = .runtime Code.invalidSignature message := by
  unfold Signature.parse at h
  split at h
  · cases h
  · cases h
    exact ⟨_, rfl⟩

/-! ### Memories and tables -/

theorem Memory.allocate_error {limits : Limits} {maxPages : UInt32}
    (h : Memory.allocate limits maxPages = .error e) :
    ∃ message, e = .runtime Code.resourceLimit message := by
  unfold Memory.allocate at h
  split at h
  · cases h
    exact ⟨_, rfl⟩
  · cases h

theorem Memory.grow_error {m : Memory} {delta : UInt32} (h : m.grow delta = .error e) :
    ∃ message, e = .runtime Code.resourceLimit message := by
  unfold Memory.grow at h
  split at h
  · cases h
  · cases h
    exact ⟨_, rfl⟩

theorem Table.grow_error {t : Table} {delta : UInt32} (h : t.grow delta = .error e) :
    ∃ message, e = .runtime Code.resourceLimit message := by
  unfold Table.grow at h
  split at h
  · cases h
  · cases h
    exact ⟨_, rfl⟩

end Wasm
