import Wasm.Machine.Activation
import Wasm.Proofs.Execution.Objects

/-!
# What code writes

Whatever a part of an execution does, it changes objects by a series of writes (`Writing`).  Nothing
needs to be known about the code: what `Objects.Write` keeps is kept by all code, checked or not.
-/

namespace Wasm

namespace Execution

variable {α β : Type} {c : Step α} {f : α → Step β} {x : Execution} {b : Bindings}

/-- A part of an execution changes objects by writes, whether it succeeds or fails. -/
def Writing (c : Step α) (x : Execution) : Prop :=
  match c x with
  | .ok _ y => x.objects.Writes y.objects
  | .error _ y => x.objects.Writes y.objects

theorem writing_pure (a : α) : Writing (pure a) x :=
  .refl

theorem writing_throw (e : Error) : Writing (throw e : Step α) x :=
  .refl

theorem Writing.bind (h : Writing c x) (hf : ∀ a y, Writing (f a) y) : Writing (c >>= f) x := by
  unfold Writing at h ⊢
  show match EStateM.bind c f x with
    | .ok _ y => x.objects.Writes y.objects
    | .error _ y => x.objects.Writes y.objects
  unfold EStateM.bind
  cases hrun : c x with
  | error e y =>
    rw [hrun] at h
    exact h
  | ok a y =>
    rw [hrun] at h
    have hrest := hf a y
    unfold Writing at hrest
    dsimp only
    cases hrun' : f a y with
    | ok _ z =>
      rw [hrun'] at hrest
      exact h.trans hrest
    | error _ z =>
      rw [hrun'] at hrest
      exact h.trans hrest

/-- A failure is given a context, and nothing else happens to it. -/
theorem Writing.rethrown {context : Error → Error} (h : Writing c x) :
    Writing (tryCatch c fun e => throw (context e)) x := by
  unfold Writing at h ⊢
  show match EStateM.tryCatch c _ x with
    | .ok _ y => x.objects.Writes y.objects
    | .error _ y => x.objects.Writes y.objects
  delta EStateM.tryCatch
  dsimp only
  cases hrun : c x with
  | ok a y =>
    rw [hrun] at h
    exact h
  | error e y =>
    rw [hrun] at h
    exact h

/-- A value that may be missing changes nothing. -/
theorem writing_orTrap {r : Except Trap α} (h : ∀ {a}, r = .ok a → Writing (f a) x) :
    Writing (orTrap r >>= f) x := by
  cases r with
  | ok a => exact h rfl
  | error t => exact .refl

theorem writing_get {f : Execution → Step β} (h : Writing (f x) x) : Writing (get >>= f) x :=
  h

theorem writing_modify {g : Execution → Execution} (h : x.objects.Writes (g x).objects) :
    Writing (modify g) x :=
  h

/-! ### Stacks -/

theorem writing_operands {f : OperandStack → Step β} (h : ∀ s, Writing (f s) x) :
    Writing (operands >>= f) x :=
  h x.thread.operands

theorem writing_setOperands (s : OperandStack) : Writing (setOperands s) x :=
  .refl

theorem writing_setFrames (frames : Stack Frame) : Writing (setFrames frames) x :=
  .refl

theorem writing_push (slot : UInt64) : Writing (push slot) x :=
  writing_operands fun _ => writing_orTrap fun _ => writing_setOperands _

theorem writing_pop : Writing pop x :=
  writing_operands fun _ => writing_orTrap fun _ =>
    (writing_setOperands _).bind fun _ _ => writing_pure _

theorem writing_popU32 : Writing popU32 x :=
  writing_pop.bind fun _ _ => writing_pure _

theorem writing_exitFrame : Writing exitFrame x := by
  refine writing_get ?_
  cases x.thread.frames.pop? with
  | none => exact writing_throw _
  | some popped =>
    refine writing_operands fun _ => writing_orTrap fun _ => (writing_setOperands _).bind fun _ _ =>
      (writing_setFrames _).bind fun _ _ => ?_
    split
    · exact writing_modify .refl
    · exact writing_pure _

/-! ### Control -/

theorem writing_baseBelow (params : Nat) : Writing (baseBelow params) x := by
  refine writing_operands fun s => ?_
  show Writing (ite _ _ _) _
  split
  · exact writing_throw _
  · exact writing_pure _

theorem writing_enter (kind : FrameKind) (type : BlockType) (body : Expr) :
    Writing (enter b kind type body) x := by
  have htype : Writing (blockType b type) x := by
    unfold blockType
    split
    · exact writing_pure _
    · exact writing_throw _
    · exact writing_pure _
  exact htype.bind fun _ _ => (writing_baseBelow _).bind fun _ _ =>
    writing_get (writing_setFrames _)

theorem writing_branch (depth : UInt32) : Writing (branch depth) x := by
  refine writing_get ?_
  show Writing (ite _ _ _) _
  split
  · exact writing_throw _
  · refine (writing_setFrames _).bind fun _ y => ?_
    cases (x.thread.frames.drop depth.toNat).items with
    | nil => exact writing_throw _
    | cons f _ =>
      show Writing (ite _ _ _) _
      split
      · exact writing_operands fun _ => writing_orTrap fun _ =>
          (writing_setOperands _).bind fun _ _ => writing_setFrames _
      · exact writing_exitFrame

theorem writing_ret : Writing ret x := by
  refine writing_get ?_
  cases x.thread.frames.items.findIdx? (·.kind = .call) with
  | none => exact writing_throw _
  | some depth => exact writing_branch _

theorem writing_leave (f : FuncRef) : Writing (some <$> leave f) x :=
  Writing.bind (writing_operands fun _ => writing_orTrap fun _ =>
    (writing_setOperands _).bind fun _ _ => writing_pure _) fun _ _ => writing_pure _

theorem writing_call (index : UInt32) : Writing (call b index) x := by
  refine writing_orTrap fun {f} _ => ?_
  cases f with
  | imported f => exact writing_leave f
  | defined type localCount body =>
    refine writing_get ?_
    show Writing (ite _ _ _) _
    split
    · exact writing_throw _
    · exact (writing_baseBelow _).bind fun _ _ => writing_orTrap fun _ =>
        (writing_setOperands _).bind fun _ _ =>
          Writing.bind (writing_modify .refl) fun _ _ => writing_pure _

theorem writing_callIndirect (typeIndex : UInt32) : Writing (callIndirect b typeIndex) x := by
  refine writing_popU32.bind fun _ _ => writing_orTrap fun _ => writing_get <|
    writing_orTrap fun _ => writing_orTrap fun {entry} _ => ?_
  cases entry with
  | none => exact writing_throw _
  | some f =>
    dsimp only
    split
    · exact writing_throw _
    · split
      · exact writing_throw _
      · split
        · exact writing_call _
        · exact writing_leave f

/-! ### Instructions that write -/

theorem writing_globalSet (index : UInt32) : Writing (globalSet b index) x :=
  writing_pop.bind fun _ _ => writing_orTrap fun _ => writing_get <| writing_orTrap fun hc =>
    writing_orTrap fun hset => writing_modify
      (.single (.global (Objects.setGlobal_eq_ok_iff.mpr ⟨_, _, hc, hset, rfl⟩)))

theorem writing_store (m : MemArg) (count : Nat) : Writing (store b m count) x := by
  refine writing_pop.bind fun slot _ => writing_popU32.bind fun _ _ => writing_orTrap fun _ =>
    writing_get <| writing_orTrap fun hm => ?_
  show Writing (ite _ _ _) _
  split
  · next hfits =>
    refine writing_modify (.single (.bytes (Objects.writeMemory_eq_ok_iff.mpr ⟨_, hm, ?_, rfl⟩)))
    rw [LittleEndian.length_encode]
    exact hfits
  · exact writing_throw _

theorem writing_memoryGrow : Writing (memoryGrow b) x := by
  refine writing_popU32.bind fun delta _ => writing_orTrap fun _ => writing_get <|
    writing_orTrap fun {memory} hm => ?_
  cases hgrow : memory.grow delta with
  | error e => exact writing_push _
  | ok grown =>
    exact Writing.bind (writing_modify (.single (.grow hm hgrow))) fun _ _ => writing_push _

/-! ### Instructions -/

theorem writing_localAt {f : Nat → Step β} {index : UInt32} (h : ∀ k, Writing (f k) x) :
    Writing (localAt index >>= f) x :=
  h (x.thread.localBase + index.toNat)

theorem writing_assign (index : UInt32) (slot : UInt64) :
    Writing (do setOperands (← orTrap ((← operands).set (← localAt index) slot))) x :=
  writing_operands fun _ => writing_localAt fun _ => writing_orTrap fun _ => writing_setOperands _

theorem writing_load (m : MemArg) (count : Nat) (decode : Nat → UInt64) :
    Writing (load b m count decode) x :=
  writing_popU32.bind fun _ _ => writing_get <| writing_orTrap fun _ => writing_orTrap fun _ =>
    writing_orTrap fun _ => writing_push _

theorem writing_operate (f : Operator) : Writing (operate f) x := by
  cases f with
  | unary eval => exact writing_pop.bind fun _ _ => writing_orTrap fun _ => writing_push _
  | binary eval =>
    exact writing_pop.bind fun _ _ => writing_pop.bind fun _ _ => writing_orTrap fun _ =>
      writing_push _

theorem writing_simple (i : Instr) : Writing (simple b i) x := by
  unfold simple
  split
  · exact writing_pure _
  · exact writing_pop.bind fun _ _ => writing_pure _
  · exact writing_popU32.bind fun _ _ => writing_pop.bind fun _ _ => writing_pop.bind fun _ _ =>
      writing_push _
  · exact writing_operands fun _ => writing_localAt fun _ => writing_orTrap fun _ => writing_push _
  · exact writing_pop.bind fun slot _ => writing_assign _ slot
  · exact writing_operands fun _ => writing_orTrap fun {slot} _ => writing_assign _ slot
  · exact writing_get <| writing_orTrap fun _ => writing_orTrap fun _ => writing_push _
  · exact writing_globalSet _
  · exact writing_load ..
  · exact writing_load ..
  · exact writing_store ..
  · exact writing_store ..
  · exact writing_get <| writing_orTrap fun _ => writing_orTrap fun _ => writing_push _
  · exact writing_memoryGrow
  · exact writing_push _
  · exact writing_operate _
  · split
    · exact writing_operate _
    · exact writing_throw _

/-- A part after which nothing is left to be called. -/
theorem Writing.thenNone {c : Step Unit} (h : Writing c x) :
    Writing (c >>= fun _ => pure (none : Option Call)) x :=
  h.bind fun _ _ => writing_pure _

theorem writing_execute (i : Instr) : Writing (execute b i) x := by
  unfold execute
  split
  · exact writing_throw _
  · exact (writing_enter ..).thenNone
  · exact (writing_enter ..).thenNone
  · exact writing_popU32.bind fun _ _ => (writing_enter ..).thenNone
  · exact (writing_branch _).thenNone
  · refine writing_popU32.bind fun condition _ => ?_
    by_cases hcondition : condition ≠ 0
    · rw [if_pos hcondition]
      exact (writing_branch _).thenNone
    · rw [if_neg hcondition]
      exact writing_pure _
  · exact writing_popU32.bind fun _ _ => (writing_branch _).thenNone
  · exact writing_ret.thenNone
  · exact writing_call _
  · exact writing_callIndirect _
  · exact (writing_simple _).thenNone

end Execution

/-! ### Parts of an activation -/

namespace Activation

open Execution

variable {x : Execution} {b : Bindings}

theorem writing_advance : Writing (advance b) x := by
  refine writing_get ?_
  cases x.thread.frames.items with
  | nil => exact writing_throw _
  | cons f _ =>
    dsimp only
    cases f.rest with
    | nil => exact writing_exitFrame.bind fun _ _ => writing_pure _
    | cons i rest =>
      refine writing_get ((writing_setFrames _).bind fun _ _ => ?_)
      exact (writing_execute i).rethrown.bind fun _ _ => writing_pure _

theorem writing_enter (index : UInt32) (args : List Value) : Writing (enter index args b) x :=
  writing_operands fun _ => writing_orTrap fun _ =>
    (writing_setOperands _).bind fun _ _ => writing_call index

theorem writing_resume (type : FuncType) (values : List Value) :
    Writing (resume type values) x := by
  unfold resume
  split
  · exact writing_throw _
  · exact writing_operands fun _ => writing_orTrap fun _ => writing_setOperands _

theorem writing_finish (types : List ValueType) : Writing (finish types) x :=
  writing_operands fun _ => writing_orTrap fun _ =>
    (writing_setOperands _).bind fun _ _ => writing_pure _

end Activation

end Wasm
