import Wasm.Proofs.Errors.Categories
import Wasm.Validation.Module

/-!
# Failures of validation

Whatever is wrong with a module, validation says so with a failure of its own category, whatever the
contexts in front of it.  The proof follows the checks: one lemma for each way of putting checks
together, and one for each check.
-/

namespace Wasm.Validation

variable {α β : Type}

/-- A result that, if it is a failure, is one of validation. -/
def Invalidates (r : Except Error α) : Prop :=
  ∀ ⦃e : Error⦄, r = .error e → e.Belongs .validation

theorem invalidates_ok (a : α) : Invalidates (.ok a : Except Error α) :=
  fun _ h => nomatch h

theorem invalidates_error {e : Error} (he : e.Belongs .validation) :
    Invalidates (.error e : Except Error α) := by
  intro e' h
  cases h
  exact he

theorem Invalidates.bind {r : Except Error α} {f : α → Except Error β} (h : Invalidates r)
    (hf : ∀ a, Invalidates (f a)) : Invalidates (r >>= f) := by
  cases r with
  | ok a => exact hf a
  | error e => exact invalidates_error (h rfl)

theorem Invalidates.withContext {r : Except Error α} (h : Invalidates r) (outer : Unit → String) :
    Invalidates (withContext outer r) := by
  cases r with
  | ok a => exact invalidates_ok a
  | error e => exact invalidates_error ((h rfl).context _)

theorem invalidates_ite {p : Prop} [Decidable p] {r r' : Except Error α} (h : Invalidates r)
    (h' : Invalidates r') : Invalidates (if p then r else r') := by
  split
  · exact h
  · exact h'

theorem invalidates_forM {l : List α} {f : α → Except Error PUnit} (hf : ∀ a, Invalidates (f a)) :
    Invalidates (l.forM f) := by
  induction l with
  | nil => exact invalidates_ok _
  | cons a l ih => exact (hf a).bind fun _ => ih

/-! ### Checks of bodies -/

/-- A check that fails with failures of validation only. -/
def Checks (c : Check α) : Prop :=
  ∀ s : State, Invalidates (c s)

section Checks

variable {c : Check α} {f : α → Check β}

theorem checks_pure (a : α) : Checks (pure a : Check α) :=
  fun _ => invalidates_ok _

theorem checks_throw {e : Error} (he : e.Belongs .validation) : Checks (throw e : Check α) :=
  fun _ => invalidates_error he

theorem checks_get : Checks (get : Check State) :=
  fun _ => invalidates_ok _

theorem checks_set (s : State) : Checks (set s : Check PUnit) :=
  fun _ => invalidates_ok _

theorem checks_modify (g : State → State) : Checks (modify g : Check PUnit) :=
  fun _ => invalidates_ok _

theorem Checks.bind (h : Checks c) (hf : ∀ a, Checks (f a)) : Checks (c >>= f) :=
  fun s => (h s).bind fun p => hf p.1 p.2

theorem Checks.within (h : Checks c) (outer : Unit → String) : Checks (Recorder.within outer c) :=
  fun s => (h s).withContext outer

theorem checks_ite {p : Prop} [Decidable p] {c' : Check α} (h : Checks c) (h' : Checks c') :
    Checks (if p then c else c') := by
  split
  · exact h
  · exact h'

theorem checks_guard {p : Prop} [Decidable p] {e : Error} {g : PUnit → Check β}
    (he : e.Belongs .validation) (hg : ∀ u, Checks (g u)) :
    Checks (if p then throw e >>= g else g ⟨⟩) :=
  checks_ite ((checks_throw he).bind hg) (hg _)

theorem checks_forM {l : List α} {g : α → Check PUnit} (hg : ∀ a, Checks (g a)) :
    Checks (l.forM g) := by
  induction l with
  | nil => exact checks_pure _
  | cons a l ih => exact (hg a).bind fun _ => ih

theorem checks_orThrow {e : Error} (he : e.Belongs .validation) (a : Option α) :
    Checks (orThrow a e) := by
  cases a with
  | some a => exact checks_pure a
  | none => exact checks_throw he

end Checks

/-! ### Operands and frames -/

theorem checks_push (t : Operand) : Checks (push t) :=
  checks_modify _

theorem checks_pushAll (types : List ValueType) : Checks (pushAll types) :=
  checks_modify _

theorem checks_current : Checks current :=
  checks_get.bind fun _ => checks_orThrow (Error.belongs_validation (by decide)) _

theorem checks_pop : Checks pop := by
  refine checks_current.bind fun frame => checks_get.bind fun s => ?_
  refine checks_ite (checks_ite (checks_pure _) (checks_throw ?_)) ?_
  · exact Error.belongs_validation (by decide)
  · cases s.operands with
    | nil => exact checks_pure _
    | cons t rest => exact (checks_set _).bind fun _ => checks_pure _

theorem checks_popExpect (expected : ValueType) : Checks (popExpect expected) := by
  refine checks_pop.bind fun found => ?_
  cases found with
  | none => exact checks_pure _
  | some actual =>
    exact checks_ite (checks_throw (Error.belongs_validation (by decide))) (checks_pure _)

theorem checks_popAll (types : List ValueType) : Checks (popAll types) :=
  checks_forM checks_popExpect

theorem checks_pushFrame (opcode : Opcode) (type : FuncType) : Checks (pushFrame opcode type) :=
  checks_get.bind fun _ => (checks_pushAll _).bind fun _ => checks_modify _

theorem checks_popFrame : Checks popFrame :=
  checks_current.bind fun _ => (checks_popAll _).bind fun _ => checks_current.bind fun _ =>
    checks_get.bind fun _ =>
      checks_guard (Error.belongs_validation (by decide)) fun _ => checks_modify _

theorem checks_setUnreachable : Checks setUnreachable :=
  checks_current.bind fun _ => checks_modify _

theorem checks_labelTypes (depth : UInt32) : Checks (labelTypes depth) :=
  checks_get.bind fun _ => (checks_orThrow (Error.belongs_validation (by decide)) _).bind fun _ =>
    checks_pure _

theorem checks_returnTypes : Checks returnTypes :=
  checks_get.bind fun _ => checks_pure _

/-! ### Instructions -/

namespace Scope

variable (c : Scope)

theorem checks_needsMemory : Checks c.needsMemory :=
  checks_ite (checks_throw (Error.belongs_validation (by decide))) (checks_pure _)

theorem checks_memoryAccess (opcode : Opcode) (arg : MemArg) :
    Checks (c.memoryAccess opcode arg) := by
  refine c.checks_needsMemory.bind fun _ => ?_
  cases opcode.accessBytes? with
  | none => exact checks_pure _
  | some width =>
    exact checks_ite (checks_throw (Error.belongs_validation (by decide))) (checks_pure _)

theorem checks_labelAgrees (expected : List ValueType) (label : UInt32) :
    Checks (labelAgrees expected label) :=
  (checks_labelTypes label).bind fun _ =>
    checks_guard (Error.belongs_validation (by decide)) fun _ =>
      checks_ite (checks_throw (Error.belongs_validation (by decide))) (checks_pure _)

theorem checks_branchTable (labels : List UInt32) (default : UInt32) :
    Checks (branchTable labels default) :=
  (checks_popExpect _).bind fun _ => (checks_labelTypes _).bind fun _ =>
    (checks_forM (checks_labelAgrees _)).bind fun _ => (checks_popAll _).bind fun _ =>
      checks_setUnreachable

theorem checks_selection : Checks selection := by
  refine (checks_popExpect _).bind fun _ => checks_pop.bind fun first =>
    checks_pop.bind fun second => ?_
  cases first with
  | none => exact checks_push _
  | some a =>
    cases second with
    | none => exact checks_push _
    | some b => exact checks_guard (Error.belongs_validation (by decide)) fun _ => checks_push _

/-- Popping what an instruction takes and pushing what it gives. -/
theorem checks_popAll_pushAll (params results : List ValueType) :
    Checks (popAll params >>= fun _ => pushAll results) :=
  (checks_popAll _).bind fun _ => checks_pushAll _

theorem checks_flat (i : Instr) : Checks (c.flat i) := by
  unfold flat
  dsimp only
  split
  · exact checks_setUnreachable
  · exact checks_pure _
  · exact (checks_labelTypes _).bind fun _ => (checks_popAll _).bind fun _ => checks_setUnreachable
  · exact (checks_popExpect _).bind fun _ => (checks_labelTypes _).bind fun _ =>
      checks_popAll_pushAll _ _
  · exact checks_branchTable _ _
  · exact checks_returnTypes.bind fun _ => (checks_popAll _).bind fun _ => checks_setUnreachable
  · exact (checks_orThrow (Error.belongs_validation (by decide)) _).bind fun _ =>
      checks_popAll_pushAll _ _
  · exact checks_guard (Error.belongs_validation (by decide)) fun _ =>
      (checks_orThrow (Error.belongs_validation (by decide)) _).bind fun _ =>
        (checks_popExpect _).bind fun _ => checks_popAll_pushAll _ _
  · exact checks_pop.bind fun _ => checks_pure _
  · exact checks_selection
  · exact (checks_orThrow (Error.belongs_validation (by decide)) _).bind fun _ => checks_push _
  · exact (checks_orThrow (Error.belongs_validation (by decide)) _).bind fun _ =>
      checks_popExpect _
  · exact (checks_orThrow (Error.belongs_validation (by decide)) _).bind fun _ =>
      (checks_popExpect _).bind fun _ => checks_push _
  · exact (checks_orThrow (Error.belongs_validation (by decide)) _).bind fun _ => checks_push _
  · exact (checks_orThrow (Error.belongs_validation (by decide)) _).bind fun _ =>
      checks_guard (Error.belongs_validation (by decide)) fun _ => checks_popExpect _
  · exact c.checks_needsMemory.bind fun _ => checks_push _
  · exact c.checks_needsMemory.bind fun _ => (checks_popExpect _).bind fun _ => checks_push _
  · exact checks_push _
  · exact checks_popAll_pushAll _ _
  · refine (checks_orThrow (Error.belongs_validation (by decide)) _).bind fun signature => ?_
    split
    · exact (c.checks_memoryAccess _ _).bind fun _ => checks_popAll_pushAll _ _
    · exact checks_popAll_pushAll _ _

/-- The check of a block, given that of its body. -/
theorem checks_block {body : Check Unit} (hbody : Checks body) (opcode : Opcode) (type : BlockType) :
    Checks (c.blockSignature type >>= fun signature => popAll signature.params >>= fun _ =>
      pushFrame opcode signature >>= fun _ => body >>= fun _ => popFrame >>= fun _ =>
        pushAll signature.results) :=
  (checks_orThrow (Error.belongs_validation (by decide)) _).bind fun _ =>
    (checks_popAll _).bind fun _ => (checks_pushFrame _ _).bind fun _ => hbody.bind fun _ =>
      checks_popFrame.bind fun _ => checks_pushAll _

mutual
theorem checks_instr : ∀ i : Instr, Checks (c.instr i)
  | .plain op imm => by
    unfold instr
    exact c.checks_flat _
  | .block op type body => by
    have hbody := checks_sequence 0 body
    unfold instr
    split
    · next heq =>
      cases heq
      exact c.checks_block hbody _ _
    · next heq =>
      cases heq
      exact c.checks_block hbody _ _
    · next heq => cases heq
    · exact c.checks_flat _
  | .ifElse op type thenBody elseBody => by
    have hthen := checks_sequence 0 thenBody
    have helse := checks_sequence 0 elseBody
    unfold instr
    split
    · next heq => cases heq
    · next heq => cases heq
    · next heq =>
      cases heq
      exact (checks_orThrow (Error.belongs_validation (by decide)) _).bind fun _ =>
        (checks_popExpect _).bind fun _ => (checks_popAll _).bind fun _ =>
          (checks_pushFrame _ _).bind fun _ => hthen.bind fun _ => checks_popFrame.bind fun _ =>
            (checks_pushFrame _ _).bind fun _ => (helse.within _).bind fun _ =>
              checks_popFrame.bind fun _ => checks_pushAll _
    · exact c.checks_flat _

theorem checks_sequence : ∀ (index : Nat) (is : List Instr), Checks (c.sequence index is)
  | _, [] => by
    unfold sequence
    exact checks_pure _
  | index, i :: rest => by
    unfold sequence
    exact ((checks_instr i).within _).bind fun _ => checks_sequence (index + 1) rest
end

end Scope

/-! ### Parts of a module -/

theorem checks_body (m : Module) (typeIndex : UInt32) (code : Code) :
    Checks (body m typeIndex code) := by
  refine (checks_orThrow (Error.belongs_validation (by decide)) _).bind fun type => ?_
  refine Checks.bind (checks_pushFrame _ _) fun _ => ?_
  exact Checks.bind (Scope.checks_sequence _ _ _) fun _ => checks_popFrame

theorem invalidates_function (m : Module) (typeIndex : UInt32) (code : Code) :
    Invalidates (function m typeIndex code) :=
  (checks_body m typeIndex code ⟨[], []⟩).bind fun _ => invalidates_ok _

theorem invalidates_guard {p : Prop} [Decidable p] {e : Error} {g : PUnit → Except Error β}
    (he : e.Belongs .validation) (hg : ∀ u, Invalidates (g u)) :
    Invalidates (if p then throw e >>= g else g ⟨⟩) :=
  invalidates_ite ((invalidates_error he).bind hg) (hg _)

theorem invalidates_eachFrom {check : Nat → α → Except Error Unit}
    (h : ∀ index a, Invalidates (check index a)) (index : Nat) (l : List α) :
    Invalidates (eachFrom check index l) := by
  induction l generalizing index with
  | nil => exact invalidates_ok _
  | cons a rest ih => exact (h index a).bind fun _ => ih _

theorem invalidates_indexBelow {code : Nat} (hcode : Category.ofCode code = .validation)
    (what : String) (i : UInt32) (count : Nat) : Invalidates (indexBelow code what i count) :=
  invalidates_ite (invalidates_ok _) (invalidates_error (Error.belongs_validation hcode))

theorem invalidates_indexOf (m : Module) (kind : ExternKind) (i : UInt32) :
    Invalidates (indexOf m kind i) := by
  cases kind <;> exact invalidates_indexBelow (by decide) _ _ _

theorem invalidates_typeIndex (m : Module) (i : UInt32) : Invalidates (typeIndex m i) :=
  invalidates_indexBelow (by decide) _ _ _

theorem invalidates_limits (what : String) (bound : Option UInt32) (l : Limits) :
    Invalidates (limits what bound l) := by
  have hordered : Invalidates (if l.max.any (· < l.min) then
      throw (.validation Code.invalidLimits s!"{what} minimum {l.min.toNat} exceeds maximum")
        else pure () : Except Error Unit) :=
    invalidates_ite (invalidates_error (Error.belongs_validation (by decide))) (invalidates_ok _)
  unfold limits
  cases bound with
  | none => exact hordered
  | some bound => exact invalidates_guard (Error.belongs_validation (by decide)) fun _ => hordered

theorem invalidates_constantType (m : Module) (visible : Nat) (i : Instr) :
    Invalidates (constantType m visible i) := by
  unfold constantType
  split
  · exact invalidates_ok _
  · refine (invalidates_indexBelow (by decide) _ _ _).bind fun _ => ?_
    split
    · exact invalidates_error (Error.belongs_validation (by decide))
    · exact invalidates_guard (Error.belongs_validation (by decide)) fun _ => invalidates_ok _
  · exact invalidates_error (Error.belongs_validation (by decide))

theorem invalidates_constant (m : Module) (expected : ValueType) (visible : Nat) (e : Expr) :
    Invalidates (constant m expected visible e) := by
  unfold constant
  split
  · exact (invalidates_constantType m visible _).bind fun _ => invalidates_ite
      (invalidates_error (Error.belongs_validation (by decide))) (invalidates_ok _)
  · exact invalidates_error (Error.belongs_validation (by decide))

theorem invalidates_imports (m : Module) : Invalidates (imports m) := by
  refine invalidates_eachFrom (fun _ i => Invalidates.withContext ?_ _) _ _
  cases i.desc with
  | func t => exact invalidates_typeIndex m t
  | table t => exact invalidates_limits _ _ _
  | memory l => exact invalidates_limits _ _ _
  | global _ => exact invalidates_ok _

theorem invalidates_exportsAfter (m : Module) (seen : List String) (es : List Export) :
    Invalidates (exportsAfter m seen es) := by
  induction es generalizing seen with
  | nil => exact invalidates_ok _
  | cons e rest ih =>
    exact ((invalidates_indexOf m _ _).withContext _).bind fun _ =>
      invalidates_guard (Error.belongs_validation (by decide)) fun _ => ih _

theorem invalidates_start (m : Module) : Invalidates (start m) := by
  unfold start
  split
  · exact invalidates_ok _
  · split
    · exact invalidates_error (Error.belongs_validation (by decide))
    · exact invalidates_ite (invalidates_ok _)
        (invalidates_error (Error.belongs_validation (by decide)))

theorem invalidates_segments (m : Module) : Invalidates (segments m) := by
  have hoffset (e : Expr) := invalidates_constant m .i32 (m.count .global) e
  refine (invalidates_eachFrom (fun _ e => Invalidates.withContext ?_ _) _ _).bind fun _ =>
    invalidates_eachFrom (fun _ d => Invalidates.withContext ?_ _) _ _
  · exact (invalidates_indexOf m _ _).bind fun _ => (hoffset _).bind fun _ =>
      invalidates_forM (invalidates_indexOf m .func)
  · exact (invalidates_indexOf m _ _).bind fun _ => hoffset _

theorem invalidates_structureOf (m : Module) : Invalidates (structureOf m) :=
  (invalidates_imports m).bind fun _ =>
  (invalidates_eachFrom (fun _ t => (invalidates_typeIndex m t).withContext _) _ _).bind fun _ =>
  (invalidates_guard (Error.belongs_validation (by decide)) fun _ =>
    invalidates_ite (invalidates_error (Error.belongs_validation (by decide)))
      (invalidates_ok _)).bind fun _ =>
  (invalidates_forM fun _ => invalidates_limits _ _ _).bind fun _ =>
  (invalidates_forM fun _ => invalidates_limits _ _ _).bind fun _ =>
  (invalidates_eachFrom (fun _ _ => (invalidates_constant m _ _ _).withContext _) _ _).bind fun _ =>
  (invalidates_exportsAfter m [] _).bind fun _ =>
  (invalidates_start m).bind fun _ =>
  (invalidates_segments m).bind fun _ =>
  invalidates_ite (invalidates_ok _) (invalidates_error (Error.belongs_validation (by decide)))

/-- A module that is not valid is refused with a failure of validation. -/
theorem invalidates_module (m : Module) : Invalidates (module m) :=
  (invalidates_structureOf m).bind fun _ =>
    invalidates_eachFrom (fun _ _ => (invalidates_function m _ _).withContext _) _ _

end Wasm.Validation
