import Wasm.Proofs.Execution.Stops
import Wasm.Proofs.Typing.Decision

/-!
# Operands of accepted instructions

The check of a body matches opcodes with the operands that execution takes apart, but for two
families it trusts the opcode alone: a constant is typed by its opcode, whatever value it carries,
and a load or store without its alignment and offset is typed like a numeric operator, without a
look at the memory.  Everything else that stands in an accepted body, at any depth and whether or
not it can be reached, carries what its opcode asks for (`accepted_operands`), and execution finds
it.
-/

namespace Wasm

namespace Instr

/-- Whether an instruction is a constant without a value of its type. -/
def lacksValue (i : Instr) : Bool :=
  match i.opcode, Execution.immediate i with
  | .const t, .value v => v.type != t
  | .const _, _ => true
  | _, _ => false

/-- Whether an instruction is a load or store without an alignment and an offset. -/
def lacksMemArg (i : Instr) : Bool :=
  match Execution.immediate i with
  | .memArg _ => false
  | _ => i.opcode.accessBytes?.isSome

/-- The instruction stands in a sequence, at some depth.  An opcode that opens no block has no code
inside it, whatever it is given. -/
inductive Stands (i : Instr) : Expr → Prop where
  | here {rest : Expr} : Stands i (i :: rest)
  | later {j : Instr} {rest : Expr} (h : Stands i rest) : Stands i (j :: rest)
  | block {op : Opcode} {type : BlockType} {body rest : Expr} (hop : op = .block ∨ op = .loop)
      (h : Stands i body) : Stands i (.block op type body :: rest)
  | thenArm {type : BlockType} {thenBody elseBody rest : Expr} (h : Stands i thenBody) :
      Stands i (.ifElse .ifElse type thenBody elseBody :: rest)
  | elseArm {type : BlockType} {thenBody elseBody rest : Expr} (h : Stands i elseBody) :
      Stands i (.ifElse .ifElse type thenBody elseBody :: rest)

end Instr

namespace Typing

open Validation (Check Scope)

variable {α β : Type} {c : Check α} {f : α → Check β} {scope : Scope} {i : Instr} {op : Opcode}
  {imm : Immediate}

/-! ### Checks that some state passes -/

/-- The check succeeds in some state. -/
def Passes (c : Check α) : Prop :=
  ∃ s r, c s = .ok r

theorem Passes.left (h : Passes (c >>= f)) : Passes c := by
  obtain ⟨s, r, hrun⟩ := h
  cases hc : c s with
  | ok p => exact ⟨s, p, hc⟩
  | error e =>
    rw [check_bind_error hc] at hrun
    cases hrun

theorem Passes.right (h : Passes (c >>= f)) : ∃ a, Passes (f a) := by
  obtain ⟨s, r, hrun⟩ := h
  cases hc : c s with
  | ok p =>
    rw [check_bind_ok hc] at hrun
    exact ⟨p.1, p.2, r, hrun⟩
  | error e =>
    rw [check_bind_error hc] at hrun
    cases hrun

theorem Passes.last {d : Check β} (h : Passes (c >>= fun _ => d)) : Passes d :=
  h.right.choose_spec

theorem not_passes_throw (e : Error) : ¬Passes (throw e : Check α) := by
  rintro ⟨s, r, hrun⟩
  cases hrun

theorem Passes.of_within {outer : Unit → String} (h : Passes (Recorder.within outer c)) :
    Passes c := by
  obtain ⟨s, r, hrun⟩ := h
  cases hc : c s with
  | ok p => exact ⟨s, p, hc⟩
  | error e =>
    replace hrun : withContext outer (c s) = .ok r := hrun
    rw [hc] at hrun
    cases hrun

/-! ### Single instructions -/

/-- What the check of an instruction says about its operands. -/
structure Accepted (m : Module) (i : Instr) : Prop where
  operands : i.carries = true ∨ i.lacksValue = true ∨ i.lacksMemArg = true
  access : ∀ {arg width}, Execution.immediate i = .memArg arg →
    i.opcode.accessBytes? = some width → 0 < m.count .memory ∧ 2 ^ arg.align.toNat ≤ width

theorem operands_of_passes (h : Passes (scope.flat (.plain op imm))) :
    (Instr.plain op imm).carries = true ∨ (Instr.plain op imm).lacksValue = true ∨
      (Instr.plain op imm).lacksMemArg = true := by
  cases op
  case unreachable | nop | ret | drop | select | memorySize | memoryGrow | intEqz | intCompare |
    floatCompare | intUnary | intBinary | floatUnary | floatBinary | conversion | extend =>
    exact .inl rfl
  case const t =>
    cases imm
    case value v =>
      by_cases hv : v.type = t
      · exact .inl (beq_iff_eq.mpr hv : (v.type == t) = true)
      · exact .inr (.inl (bne_iff_ne.mpr hv : (v.type != t) = true))
    all_goals exact .inr (.inl rfl)
  case load | loadPart | store | storePart =>
    cases imm
    case memArg => exact .inl rfl
    all_goals exact .inr (.inr rfl)
  all_goals
    cases imm <;>
      first
        | exact .inl rfl
        | exact absurd h.left (not_passes_throw _)

theorem exists_signature {width : Nat} (hwidth : op.accessBytes? = some width) :
    ∃ sig, op.signature? = some sig := by
  cases op <;> first | exact ⟨_, rfl⟩ | cases hwidth

/-- A load or store with its operands is checked against the memory of the module. -/
theorem access_of_passes {arg : MemArg} {width : Nat} (hwidth : op.accessBytes? = some width)
    (h : Passes (scope.flat (.plain op (.memArg arg)))) :
    0 < scope.module.count .memory ∧ 2 ^ arg.align.toNat ≤ width := by
  obtain ⟨sig, hsig⟩ := exists_signature hwidth
  have hflat := @flat_eq_of_signature ⟨scope.module, scope.locals, [], []⟩ op sig hsig (.memArg arg)
  have haccess : Passes (scope.memoryAccess op arg) := (hflat ▸ h : Passes (_ >>= _)).left
  rw [Scope.memoryAccess, hwidth] at haccess
  constructor
  · by_contra hmemory
    have hneeds := haccess.left
    rw [Scope.needsMemory, if_pos (by omega)] at hneeds
    exact not_passes_throw _ hneeds
  · have halign : Passes (if 32 ≤ arg.align.toNat ∨ width < 1 <<< arg.align.toNat then
        throw (Validation.invalidAlignment arg.align width) else pure () : Check Unit) := haccess.last
    rw [← alignment_ok_iff (accessBytes_le hwidth)]
    intro hbad
    rw [if_pos hbad] at halign
    exact not_passes_throw _ halign

/-- The check of a numeric opcode, a load or a store that owns a body. -/
theorem flat_of_signature (scope : Scope) (i : Instr) {sig : FuncType}
    (himm : Execution.immediate i = .none) (hsig : i.opcode.signature? = some sig) :
    scope.flat i = Validation.popAll sig.params >>= fun _ => Validation.pushAll sig.results := by
  cases i with
  | plain op imm =>
    obtain rfl : imm = .none := himm
    exact @flat_eq_of_signature ⟨scope.module, scope.locals, [], []⟩ op sig hsig .none
  | block op type body =>
    cases op <;>
      simp only [Instr.opcode, Opcode.signature?, reduceCtorEq, Option.some.injEq] at hsig <;>
      subst hsig <;> rfl
  | ifElse op type thenBody elseBody =>
    cases op <;>
      simp only [Instr.opcode, Opcode.signature?, reduceCtorEq, Option.some.injEq] at hsig <;>
      subst hsig <;> rfl

/-- A body that its opcode does not open is not looked at. -/
theorem passes_plain (h : Passes (scope.flat i)) :
    Passes (scope.flat (.plain i.opcode (Execution.immediate i))) := by
  cases i with
  | plain op imm => exact h
  | block op type body =>
    cases hsig : op.signature? with
    | some sig =>
      show Passes (scope.flat (.plain op .none))
      rw [flat_of_signature scope (.plain op .none) rfl hsig]
      rwa [flat_of_signature scope (.block op type body) rfl hsig] at h
    | none =>
      cases op <;> simp only [Opcode.signature?, reduceCtorEq] at hsig
      all_goals first | exact h | exact absurd h.left (not_passes_throw _)
  | ifElse op type thenBody elseBody =>
    cases hsig : op.signature? with
    | some sig =>
      show Passes (scope.flat (.plain op .none))
      rw [flat_of_signature scope (.plain op .none) rfl hsig]
      rwa [flat_of_signature scope (.ifElse op type thenBody elseBody) rfl hsig] at h
    | none =>
      cases op <;> simp only [Opcode.signature?, reduceCtorEq] at hsig
      all_goals first | exact h | exact absurd h.left (not_passes_throw _)

theorem accepted_of_flat (h : Passes (scope.flat i)) : Accepted scope.module i := by
  have hplain := passes_plain h
  constructor
  case operands =>
    have hoperands := operands_of_passes hplain
    rw [Instr.carries] at hoperands ⊢
    rcases hoperands with hcarries | hlacks
    · rw [Bool.or_assoc, Bool.or_eq_true]
      exact .inl (.inr hcarries)
    · exact .inr hlacks
  case access =>
    intro arg width himm hwidth
    rw [himm] at hplain
    exact access_of_passes hwidth hplain

theorem accepted_of_opens {m : Module} (h : i.opens = true) : Accepted m i := by
  constructor
  case operands =>
    rw [Instr.carries, h]
    exact .inl rfl
  case access =>
    intro arg width himm hwidth
    cases i with
    | plain op imm => cases h
    | block op type body => cases himm
    | ifElse op type thenBody elseBody => cases himm

theorem accepted_of_instr (h : Passes (scope.instr i)) : Accepted scope.module i := by
  cases hopens : i.opens with
  | true => exact accepted_of_opens hopens
  | false =>
    have hflat : (scope.instr i : Check Unit) = scope.flat i := by
      cases i with
      | plain op imm => rfl
      | block op type body => cases op <;> first | rfl | cases hopens
      | ifElse op type thenBody elseBody => cases op <;> first | rfl | cases hopens
    exact accepted_of_flat (hflat ▸ h)

/-! ### Bodies -/

/-- The check of a block passes only if the check of its body does. -/
theorem passes_body {type : BlockType} {body : Expr} (hop : op = .block ∨ op = .loop)
    (h : Passes (scope.instr (.block op type body))) : Passes (scope.sequence 0 body) := by
  rcases hop with rfl | rfl
  all_goals
    rw [Scope.instr] at h
    obtain ⟨sig, h⟩ := h.right
    exact h.last.last.left

theorem passes_arms {type : BlockType} {thenBody elseBody : Expr}
    (h : Passes (scope.instr (.ifElse .ifElse type thenBody elseBody))) :
    Passes (scope.sequence 0 thenBody) ∧ Passes (scope.sequence 0 elseBody) := by
  rw [Scope.instr] at h
  obtain ⟨sig, h⟩ := h.right
  have hthen := h.last.last.last
  exact ⟨hthen.left, hthen.last.last.last.left.of_within⟩

theorem passes_cons {j : Instr} {rest : Expr} {index : Nat}
    (h : Passes (scope.sequence index (j :: rest))) :
    Passes (scope.instr j) ∧ Passes (scope.sequence (index + 1) rest) := by
  rw [Scope.sequence] at h
  exact ⟨h.left.of_within, h.last⟩

/-- What stands in a sequence that passes, at any depth, has passed. -/
theorem passes_of_stands {e : Expr} (hi : i.Stands e) {index : Nat}
    (h : Passes (scope.sequence index e)) : Passes (scope.instr i) := by
  induction hi generalizing index with
  | here => exact (passes_cons h).1
  | later _ ih => exact ih (passes_cons h).2
  | block hop _ ih => exact ih (passes_body hop (passes_cons h).1)
  | thenArm _ ih => exact ih (passes_arms (passes_cons h).1).1
  | elseArm _ ih => exact ih (passes_arms (passes_cons h).1).2

theorem passes_of_function {m : Module} {typeIndex : UInt32} {code : Code}
    (h : Validation.function m typeIndex code = .ok ()) :
    ∃ scope : Scope, scope.module = m ∧ Passes (scope.sequence 0 code.body) := by
  obtain ⟨s, hrun⟩ := map_fst_eq_ok_iff.mp h
  have hbody : Passes (Validation.body m typeIndex code) := ⟨_, _, hrun⟩
  obtain ⟨type, hchecks⟩ := hbody.right
  exact ⟨⟨m, type.params ++ code.localTypes⟩, rfl, hchecks.last.left⟩

theorem carries_of_lacksValue (h : i.lacksValue = true) : i.carries = false := by
  cases i with
  | plain op imm =>
    cases op <;> try cases h
    cases imm <;> try rfl
    case value t v =>
      have hne : (v.type == t) = false := by
        simpa [Instr.lacksValue, Instr.opcode, Execution.immediate] using h
      exact hne
  | block op type body => cases op <;> first | rfl | cases h
  | ifElse op type thenBody elseBody => cases op <;> first | rfl | cases h

theorem carries_of_lacksMemArg (h : i.lacksMemArg = true) : i.carries = false := by
  cases i with
  | plain op imm =>
    cases imm <;> try cases h
    all_goals cases op <;> first | rfl | cases h
  | block op type body => cases op <;> first | rfl | cases h
  | ifElse op type thenBody elseBody => cases op <;> first | rfl | cases h

theorem hasValue_of_lacksMemArg (h : i.lacksMemArg = true) : i.hasValue = false := by
  cases i with
  | plain op imm => cases op <;> first | rfl | cases imm <;> cases h
  | block op type body => cases op <;> rfl
  | ifElse op type thenBody elseBody => cases op <;> rfl

/-- Execution does not find the operands of an accepted instruction if it is a load or store without
any or a constant without a value. -/
theorem Accepted.readable_eq_false_iff {m : Module} (h : Accepted m i) :
    i.readable = false ↔ i.lacksMemArg = true ∨ i.lacksValue = true ∧ i.hasValue = false := by
  rw [Instr.readable, Bool.or_eq_false_iff]
  constructor
  · rintro ⟨hcarries, hvalue⟩
    rcases h.operands with hc | hlacks | hlacks
    · cases hcarries.symm.trans hc
    · exact .inr ⟨hlacks, hvalue⟩
    · exact .inl hlacks
  · rintro (hlacks | ⟨hlacks, hvalue⟩)
    · exact ⟨carries_of_lacksMemArg hlacks, hasValue_of_lacksMemArg hlacks⟩
    · exact ⟨carries_of_lacksValue hlacks, hvalue⟩

theorem execute_const {b : Bindings} {t : ValueType} (hop : i.opcode = .const t)
    (hcarries : i.carries = true) : ∃ v : Value, v.type = t ∧
      Execution.execute b i = Execution.push v.toSlot >>= fun _ => pure none := by
  cases i with
  | plain op imm =>
    obtain rfl : op = .const t := hop
    cases imm <;> try cases hcarries
    case value v => exact ⟨v, beq_iff_eq.mp hcarries, rfl⟩
  | block op type body =>
    obtain rfl : op = .const t := hop
    cases hcarries
  | ifElse op type thenBody elseBody =>
    obtain rfl : op = .const t := hop
    cases hcarries

/-- An instruction of an accepted body carries the operands of its opcode, wherever it stands, with
two exceptions: a constant may lack a value of its type, and a load or store its alignment and
offset.  These are the instructions that execution calls malformed, except for a constant with a
value of another type, which is pushed as it is; any other constant pushes a value of its type. -/
theorem accepted_operands {m : Module} {typeIndex : UInt32} {code : Code}
    (h : Validation.function m typeIndex code = .ok ()) (hi : i.Stands code.body) :
    Accepted m i ∧
    (∀ b x, (∃ e y, Execution.execute b i x = .error e y ∧ e.code = Code.typeMismatch) ↔
      i.lacksMemArg = true ∨ i.lacksValue = true ∧ i.hasValue = false) ∧
    ∀ b t, i.opcode = .const t → i.carries = true → ∃ v : Value, v.type = t ∧
      Execution.execute b i = Execution.push v.toSlot >>= fun _ => pure none := by
  obtain ⟨scope, rfl, hpasses⟩ := passes_of_function h
  have haccepted := accepted_of_instr (passes_of_stands hi hpasses)
  refine ⟨haccepted, fun b x => ?_, fun b t hop hcarries => execute_const hop hcarries⟩
  exact (Execution.malformed_iff x).trans haccepted.readable_eq_false_iff

/-- A constant in a block, without a value: it is accepted, and cannot be executed. -/
theorem constant_without_value :
    Validation.function { types := [⟨[], []⟩] } 0
        ⟨[], [.block .block .empty [.plain (.const .i32) .none, .plain .drop .none]]⟩ = .ok () ∧
      ∀ b x, ∃ e y, Execution.execute b (.plain (.const .i32) .none) x = .error e y ∧
        e.code = Code.typeMismatch := by
  have haccepted : Validation.function { types := [⟨[], []⟩] } 0
      ⟨[], [.block .block .empty [.plain (.const .i32) .none, .plain .drop .none]]⟩ = .ok () := rfl
  refine ⟨haccepted, fun b x => ?_⟩
  exact ((accepted_operands haccepted (.block (.inl rfl) .here)).2.1 b x).mpr (.inr ⟨rfl, rfl⟩)

/-- A load in a module without a memory, and a constant whose value is of another type. -/
theorem load_without_memory :
    Validation.function { types := [⟨[], [.f32]⟩] } 0
        ⟨[], [.plain (.const .i32) (.value (.i64 7)), .plain (.load .f32) .none]⟩ = .ok () ∧
      (Instr.plain (.const .i32) (.value (.i64 7))).carries = false ∧
      (Instr.plain (.load .f32) .none).carries = false :=
  ⟨rfl, rfl, rfl⟩

end Typing

end Wasm
