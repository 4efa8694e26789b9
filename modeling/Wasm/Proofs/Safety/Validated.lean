import Wasm.Proofs.Typing.Decision
import Wasm.Validation.Module

/-!
# What validation delivers

The checks of `Wasm.Validation.Module` as facts about the module that passes them: its bodies are
checked at their types, its globals have initial values of their types, and its exports and its
start function are there.
-/

namespace Wasm

/-! ### Lengths -/

theorem Module.length_importedFuncs (m : Module) :
    m.importedFuncs.length = m.importCount .func := by
  rw [importedFuncs, importCount, List.length_filterMap_eq_countP]
  refine List.countP_congr fun imp _ => ?_
  cases imp.desc <;> simp [ImportDesc.funcTypeIndex?, ImportDesc.kind]

theorem Code.length_localTypes (c : Code) : c.localTypes.length = c.localCount := by
  rw [localTypes, localCount]
  induction c.locals with
  | nil => rfl
  | cons l rest ih =>
    rw [List.flatMap_cons, List.length_append, List.length_replicate, ih]
    rfl

namespace Validation

/-! ### Checks in a row -/

theorem exists_of_bind {α β : Type} {r : Except Error α} {f : α → Except Error β} {b : β}
    (h : (r >>= f) = .ok b) : ∃ a, r = .ok a ∧ f a = .ok b := by
  cases r with
  | error e => cases h
  | ok a => exact ⟨a, rfl, h⟩

theorem and_of_seq {a b : Except Error Unit} (h : (a >>= fun _ => b) = .ok ()) :
    a = .ok () ∧ b = .ok () := by
  cases a with
  | error e => cases h
  | ok _ => exact ⟨rfl, h⟩

theorem withContext_eq_ok {outer : Unit → String} {r : Except Error Unit}
    (h : withContext outer r = .ok ()) : r = .ok () := by
  cases r with
  | error e => cases h
  | ok _ => rfl

theorem eachFrom_eq_ok {α : Type} {check : Nat → α → Except Error Unit} {index : Nat} {l : List α}
    (h : eachFrom check index l = .ok ()) {a : α} (ha : a ∈ l) : ∃ k, check k a = .ok () := by
  induction l generalizing index with
  | nil => cases ha
  | cons b rest ih =>
    rw [eachFrom] at h
    obtain ⟨hfirst, hrest⟩ := and_of_seq h
    cases ha with
    | head => exact ⟨index, hfirst⟩
    | tail _ ha => exact ih hrest ha

theorem indexBelow_eq_ok {code : Nat} {what : String} {i : UInt32} {count : Nat}
    (h : indexBelow code what i count = .ok ()) : i.toNat < count := by
  unfold indexBelow at h
  split at h
  · assumption
  · cases h

/-! ### Modules -/

/-- A module that has passed validation, as far as running it depends on that. -/
structure Passed (m : Module) : Prop where
  count : m.functions.length = m.codes.length
  bodies : ∀ {t : UInt32} {code : Code}, (t, code) ∈ m.functions.zip m.codes →
    function m t code = .ok ()
  globals : ∀ {g : Global}, g ∈ m.globals →
    ∃ visible, constant m g.type.valueType visible g.init = .ok ()
  exports : ∀ {e : Export}, e ∈ m.exports → e.index.toNat < m.count e.kind
  start : ∀ {f : UInt32}, m.start = some f → ∃ type, m.funcType? f = some type

theorem exportsAfter_eq_ok {m : Module} {seen : List String} {es : List Export}
    (h : exportsAfter m seen es = .ok ()) {e : Export} (he : e ∈ es) :
    e.index.toNat < m.count e.kind := by
  induction es generalizing seen with
  | nil => cases he
  | cons e' rest ih =>
    rw [exportsAfter] at h
    obtain ⟨hfirst, hrest⟩ := and_of_seq h
    split at hrest
    · cases hrest
    · cases he with
      | head => exact indexBelow_eq_ok (withContext_eq_ok hfirst)
      | tail _ he => exact ih hrest he

/-- What a valid module promises. -/
theorem passed_of_module {m : Module} (h : module m = .ok ()) : Passed m := by
  obtain ⟨hstructure, hbodies⟩ := and_of_seq h
  obtain ⟨himports, h⟩ := and_of_seq hstructure
  obtain ⟨hfunctions, h⟩ := and_of_seq h
  obtain ⟨hsingle, h⟩ := and_of_seq h
  obtain ⟨htables, h⟩ := and_of_seq h
  obtain ⟨hmemories, h⟩ := and_of_seq h
  obtain ⟨hglobals, h⟩ := and_of_seq h
  obtain ⟨hexports, h⟩ := and_of_seq h
  obtain ⟨hstart, h⟩ := and_of_seq h
  obtain ⟨hsegments, hcount⟩ := and_of_seq h
  constructor
  case count =>
    unfold bodyCount at hcount
    split at hcount
    · assumption
    · cases hcount
  case bodies =>
    intro t code hzip
    obtain ⟨index, hrun⟩ := eachFrom_eq_ok hbodies hzip
    exact withContext_eq_ok hrun
  case globals =>
    intro g hg
    obtain ⟨index, hrun⟩ := eachFrom_eq_ok hglobals hg
    exact ⟨index, withContext_eq_ok hrun⟩
  case exports =>
    intro e he
    exact exportsAfter_eq_ok hexports he
  case start =>
    intro f hf
    unfold start at hstart
    rw [hf] at hstart
    dsimp only at hstart
    cases htype : m.funcType? f with
    | none =>
      rw [htype] at hstart
      cases hstart
    | some type => exact ⟨type, rfl⟩

/-- A body that has passed is typed, at the type with its index. -/
theorem Passed.codeHasType {m : Module} (h : Passed m) {t : UInt32} {code : Code}
    (hzip : (t, code) ∈ m.functions.zip m.codes) (hsuited : Instr.AllSuited code.body) :
    ∃ type, m.types[t.toNat]? = some type ∧ Typing.CodeHasType m type code := by
  have hcheck := h.bodies hzip
  obtain ⟨type, htype⟩ := Typing.exists_type_of_function hcheck
  exact ⟨type, htype, (Typing.function_at_type htype hsuited).mp hcheck⟩

/-- A constant that reads a global has the type of the global. -/
theorem constant_globalGet {m : Module} {expected : ValueType} {visible : Nat} {x : UInt32}
    (h : constant m expected visible [.plain .globalGet (.index x)] = .ok ()) :
    ∃ type, m.globalType? x = some type ∧ type.valueType = expected := by
  obtain ⟨actual, hactual, h⟩ := exists_of_bind h
  obtain ⟨_, -, hactual⟩ := exists_of_bind hactual
  cases htype : m.globalType? x with
  | none =>
    rw [htype] at hactual
    cases hactual
  | some type =>
    rw [htype] at hactual
    dsimp only at hactual
    split at hactual
    · cases hactual
    · cases hactual
      split at h
      · cases h
      · next heq => exact ⟨type, rfl, Decidable.not_not.mp heq⟩

/-- A constant of its own type. -/
theorem constant_const {m : Module} {expected t : ValueType} {visible : Nat} {imm : Immediate}
    (h : constant m expected visible [.plain (.const t) imm] = .ok ()) : t = expected := by
  obtain ⟨actual, hactual, h⟩ := exists_of_bind h
  cases hactual
  split at h
  · cases h
  · next heq => exact Decidable.not_not.mp heq

end Validation

end Wasm
