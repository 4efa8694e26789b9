import Wasm.Proofs.Execution.Lists
import Wasm.Proofs.Typing.Rules

/-!
# Control on the machine

What the control instructions do to an execution given by its lists.  A branch lands at a frame: it
restarts a loop and leaves any other frame, whatever frames it passes on the way.  `Labelled` says
that the frames are those that the labels of a typing context stand for; it is what makes a typed
branch succeed.
-/

namespace Wasm

open Typing (Context)

/-! ### Nesting -/

mutual
/-- How many blocks deep an instruction is. -/
def Instr.nesting : Instr → Nat
  | .plain _ _ => 0
  | .block _ _ body => Expr.nesting body + 1
  | .ifElse _ _ thenBody elseBody => max (Expr.nesting thenBody) (Expr.nesting elseBody) + 1

/-- How many blocks deep a sequence is. -/
def Expr.nesting : List Instr → Nat
  | [] => 0
  | i :: rest => max i.nesting (Expr.nesting rest)
end

theorem Expr.nesting_append (e e' : Expr) :
    Expr.nesting (e ++ e') = max (Expr.nesting e) (Expr.nesting e') := by
  induction e with
  | nil => exact (Nat.zero_max _).symm
  | cons i rest ih =>
    rw [List.cons_append, Expr.nesting, Expr.nesting, ih, Nat.max_assoc]

/-- Where there is room for a block there is room for its body. -/
theorem exists_room {nesting room : Nat} (h : nesting + 1 ≤ room) :
    ∃ room', room = room' + 1 ∧ nesting ≤ room' :=
  ⟨room - 1, by omega, by omega⟩

namespace Execution

variable {b : Bindings} {o : Objects} {slots : List UInt64} {limit : Nat} {frames : List Frame}
  {localBase callDepth : Nat} {f : Frame}

/-! ### Entering and leaving frames -/

theorem blockType_eq {type : BlockType} {sig : FuncType}
    (hsig : type.resolve? b.module.types = some sig) : blockType b type = pure sig := by
  unfold blockType
  rw [hsig]

theorem baseBelow_ofLists {params : Nat} (h : params ≤ slots.length) :
    baseBelow params ⟨o, .ofLists slots limit frames localBase callDepth⟩ =
      .ok (slots.length - params) ⟨o, .ofLists slots limit frames localBase callDepth⟩ := by
  show (ite (slots.length < params) _ _ : Step Nat) _ = _
  rw [if_neg (by omega)]
  rfl

theorem enter_ofLists {kind : FrameKind} {type : BlockType} {sig : FuncType} {body : Expr}
    (hsig : type.resolve? b.module.types = some sig) (h : sig.params.length ≤ slots.length) :
    enter b kind type body ⟨o, .ofLists slots limit frames localBase callDepth⟩ =
      .ok () ⟨o, .ofLists slots limit
        (.enter kind body (slots.length - sig.params.length) sig.params.length sig.results.length ::
          frames) localBase callDepth⟩ := by
  unfold enter
  rw [blockType_eq hsig, pure_bind, bind_ok (baseBelow_ofLists h), bind_get, Thread.frames_ofLists,
    Stack.push_ofList]
  rfl

/-- The execution after a frame is closed. -/
def left (f : Frame) (o : Objects) (slots : List UInt64) (limit : Nat) (frames : List Frame)
    (localBase callDepth : Nat) : Execution :=
  ⟨o, .ofLists (unwound f.base f.results slots) limit frames
    (if f.kind = .call then f.savedLocalBase else localBase)
    (if f.kind = .call then callDepth - 1 else callDepth)⟩

theorem exitFrame_ofLists (h : f.base + f.results ≤ slots.length) :
    exitFrame ⟨o, .ofLists slots limit (f :: frames) localBase callDepth⟩ =
      .ok () (left f o slots limit frames localBase callDepth) := by
  unfold exitFrame
  rw [bind_get, Thread.frames_ofLists, Stack.pop?_ofList_cons]
  dsimp only
  rw [bind_ok operands_ofLists, OperandStack.unwind_ofList h, bind_ok (orTrap_ok _ _),
    bind_ok (setOperands_ofLists _), bind_ok (setFrames_ofLists _)]
  unfold left
  by_cases hkind : f.kind = .call
  · rw [if_pos hkind, if_pos hkind, if_pos hkind]
    rfl
  · rw [if_neg hkind, if_neg hkind, if_neg hkind]
    rfl

/-- The execution after a branch to a frame. -/
def landed (f : Frame) (o : Objects) (slots : List UInt64) (limit : Nat) (frames : List Frame)
    (localBase callDepth : Nat) : Execution :=
  if f.kind = .loop then
    ⟨o, .ofLists (unwound f.base f.params slots) limit (f.restart :: frames) localBase callDepth⟩
  else left f o slots limit frames localBase callDepth

/-- A branch lands at the frame as many frames out. -/
theorem branch_ofLists {depth : UInt32} {rest : List Frame}
    (hframe : frames.drop depth.toNat = f :: rest) (h : f.base + f.branchArity ≤ slots.length) :
    branch depth ⟨o, .ofLists slots limit frames localBase callDepth⟩ =
      .ok () (landed f o slots limit rest localBase callDepth) := by
  have hdepth : depth.toNat < frames.length := by
    have hlength := congrArg List.length hframe
    rw [List.length_drop, List.length_cons] at hlength
    omega
  unfold branch
  rw [bind_get, Thread.frames_ofLists, Stack.height_ofList, if_neg (Nat.not_le.mpr hdepth),
    Stack.drop_ofList, hframe, bind_ok (setFrames_ofLists _)]
  simp only [Stack.items_ofList]
  unfold landed
  by_cases hkind : f.kind = .loop
  · rw [if_pos hkind, if_pos hkind, bind_ok operands_ofLists, OperandStack.unwind_ofList h,
      bind_ok (orTrap_ok _ _), bind_ok (setOperands_ofLists _), Stack.setTop_ofList_cons,
      setFrames_ofLists, show f.branchArity = f.params from if_pos hkind]
  · rw [if_neg hkind, if_neg hkind]
    refine exitFrame_ofLists ?_
    rwa [show f.branchArity = f.results from if_neg hkind] at h

/-! ### Calls -/

/-- The frame of a called function. -/
def callFrame (type : FuncType) (body : Expr) (base savedLocalBase : Nat) : Frame :=
  { Frame.enter .call body base type.params.length type.results.length with savedLocalBase }

/-- A call of a function of the instance opens its frame, with the arguments as the first locals, or
it reaches one of the two limits. -/
theorem call_defined {index : UInt32} {type : FuncType} {localCount : Nat} {body : Expr}
    (hf : b.func index = .ok (.defined type localCount body))
    (h : type.params.length ≤ slots.length) :
    (∃ t : Trap, (t = .callStackExhausted callDepth ∨ t = .stackOverflow) ∧
      call b index ⟨o, .ofLists slots limit frames localBase callDepth⟩ =
        .error t.error ⟨o, .ofLists slots limit frames localBase callDepth⟩) ∨
    call b index ⟨o, .ofLists slots limit frames localBase callDepth⟩ =
      .ok none ⟨o, .ofLists (List.replicate localCount 0 ++ slots) limit
        (callFrame type body (slots.length - type.params.length) localBase :: frames)
        (slots.length - type.params.length) (callDepth + 1)⟩ := by
  unfold call
  rw [hf, bind_ok (orTrap_ok _ _)]
  dsimp only
  rw [bind_get]
  dsimp only
  by_cases hdepth : b.config.maxCallDepth ≤ callDepth
  · rw [show (Thread.ofLists slots limit frames localBase callDepth).callDepth = callDepth from rfl,
      if_pos hdepth]
    exact .inl ⟨_, .inl rfl, rfl⟩
  · rw [show (Thread.ofLists slots limit frames localBase callDepth).callDepth = callDepth from rfl,
      if_neg hdepth, bind_ok (baseBelow_ofLists h),
      show (Thread.ofLists slots limit frames localBase callDepth).operands =
        ⟨.ofList slots, limit⟩ from rfl, OperandStack.pushZeros_ofList]
    by_cases hroom : limit - slots.length < localCount
    · rw [if_pos hroom]
      exact .inl ⟨_, .inr rfl, rfl⟩
    · rw [if_neg hroom, bind_ok (orTrap_ok _ _), bind_ok (setOperands_ofLists _),
        Thread.frames_ofLists, Stack.push_ofList]
      exact .inr rfl

/-- A call that leaves the instance takes its arguments with it. -/
theorem leave_ofLists {func : FuncRef} (h : func.type.params.length ≤ slots.length) :
    leave func ⟨o, .ofLists slots limit frames localBase callDepth⟩ =
      .ok ⟨func, (func.type.params.zip (slots.take func.type.params.length).reverse).map
          fun (t, slot) => Value.ofSlot t slot⟩
        ⟨o, .ofLists (slots.drop func.type.params.length) limit frames localBase callDepth⟩ := by
  unfold leave
  rw [bind_ok operands_ofLists, OperandStack.popMany_ofList h, bind_ok (orTrap_ok _ _)]
  exact bind_ok (setOperands_ofLists _)

/-- The function that an indirect call finds in the table. -/
def selected (b : Bindings) (typeIndex : UInt32) : Step FuncRef := do
  let slot ← popU32
  let a ← orTrap b.tableAt
  let table ← orTrap ((← get).objects.table a)
  match ← orTrap (table.get slot) with
  | none => trap (.uninitializedElement slot)
  | some f =>
    match b.module.types[typeIndex.toNat]? with
    | none => throw (unknownType typeIndex)
    | some expected =>
      if f.type ≠ expected then trap (.indirectCallType expected f.type) else return f

/-- An indirect call looks for the function and then calls it. -/
theorem callIndirect_eq (typeIndex : UInt32) : callIndirect b typeIndex =
    selected b typeIndex >>= fun f => match b.ownIndex? f with
      | some index => call b index
      | none => some <$> leave f := by
  unfold callIndirect selected
  simp only [bind_assoc]
  refine bind_congr fun slot => bind_congr fun a => bind_congr fun x => bind_congr fun table =>
    bind_congr fun entry => ?_
  cases entry with
  | none => rfl
  | some f =>
    dsimp only
    cases b.module.types[typeIndex.toNat]? with
    | none => rfl
    | some expected =>
      dsimp only
      by_cases htype : f.type = expected
      · rw [if_neg (not_not_intro htype), if_neg (not_not_intro htype)]
        rfl
      · rw [if_pos htype, if_pos htype]
        rfl

end Execution

/-! ### What is left of a frame does not matter to branches -/

namespace Execution

variable {f g : Frame}

theorem landed_withRest (f : Frame) (r : Expr) : landed { f with rest := r } = landed f := by
  funext o slots limit frames localBase callDepth
  rfl

theorem drop_withRest {frames rest : List Frame} {r : Expr} {depth : Nat}
    (h : ({ f with rest := r } :: frames).drop depth = g :: rest) :
    ∃ g', (f :: frames).drop depth = g' :: rest ∧ landed g = landed g' := by
  cases depth with
  | zero =>
    cases h
    exact ⟨f, rfl, landed_withRest f r⟩
  | succ depth => exact ⟨g, h, rfl⟩

theorem findIdx?_withRest (f : Frame) (r : Expr) (frames : List Frame) :
    ({ f with rest := r } :: frames).findIdx? (·.kind = .call) =
      (f :: frames).findIdx? (·.kind = .call) := by
  rw [List.findIdx?_cons, List.findIdx?_cons]

end Execution

/-! ### Labels -/

/-- The frames that the labels of a context stand for: a branch to a label finds a frame that takes
as many values, with its base not above `top`; and the outermost of them is the frame of the call.
Branch depths are 32-bit numbers, so no more than `room` blocks may be opened inside. -/
structure Labelled (Γ : Context) (frames : List Frame) (top room : Nat) : Prop where
  frame : ∀ {depth : Nat} {label : List ValueType}, Γ.labels[depth]? = some label →
    ∃ f rest, frames.drop depth = f :: rest ∧ f.branchArity = label.length ∧ f.base ≤ top
  call : ∃ depth, frames.findIdx? (·.kind = .call) = some depth ∧
    Γ.labels[depth]? = some Γ.results ∧ depth + room < 4294967296

namespace Labelled

variable {Γ : Context} {frames : List Frame} {top room : Nat} {f : Frame}

/-- Opening a block. -/
theorem enter {label : List ValueType} {top' : Nat} (h : Labelled Γ frames top (room + 1))
    (hkind : f.kind ≠ .call) (harity : f.branchArity = label.length) (hbase : f.base ≤ top')
    (htop : top ≤ top') : Labelled (Γ.enter label) (f :: frames) top' room := by
  refine ⟨fun {depth label'} hlabel => ?_, ?_⟩
  · cases depth with
    | zero =>
      obtain rfl := Option.some.inj hlabel
      exact ⟨f, frames, rfl, harity, hbase⟩
    | succ depth =>
      obtain ⟨g, rest, hdrop, harity', hg⟩ := @Labelled.frame _ _ _ _ h depth _ hlabel
      exact ⟨g, rest, hdrop, harity', Nat.le_trans hg htop⟩
  · obtain ⟨depth, hindex, hresults, hroom⟩ := h.call
    refine ⟨depth + 1, ?_, hresults, by omega⟩
    rw [List.findIdx?_cons, if_neg (by simpa using hkind), hindex]
    rfl

/-- The body of a function. -/
theorem ofBody {m : Module} {locals results : List ValueType} (hkind : f.kind = .call)
    (harity : f.results = results.length) (hbase : f.base ≤ top) (hroom : room < 4294967296) :
    Labelled (.ofBody m locals results) (f :: frames) top room := by
  refine ⟨fun {depth label} hlabel => ?_, 0, ?_, rfl, by omega⟩
  · cases depth with
    | zero =>
      obtain rfl := Option.some.inj hlabel
      refine ⟨f, frames, rfl, ?_, hbase⟩
      rw [Frame.branchArity, if_neg (by simp [hkind]), harity]
    | succ depth => cases hlabel
  · rw [List.findIdx?_cons, if_pos (by simpa using hkind)]

theorem withRest (h : Labelled Γ (f :: frames) top room) (r : Expr) :
    Labelled Γ ({ f with rest := r } :: frames) top room := by
  refine ⟨fun {depth label} hlabel => ?_, ?_⟩
  · obtain ⟨g, rest, hdrop, harity, hbase⟩ := h.frame hlabel
    cases depth with
    | zero =>
      cases hdrop
      exact ⟨_, frames, rfl, harity, hbase⟩
    | succ depth => exact ⟨g, rest, hdrop, harity, hbase⟩
  · rw [Execution.findIdx?_withRest]
    exact h.call

variable (o : Objects) {slots : List UInt64} (limit localBase callDepth : Nat)

/-- A typed branch lands at the frame of its label. -/
theorem branch (h : Labelled Γ frames top room) {depth : UInt32} {label : List ValueType}
    (hlabel : Γ.labels[depth.toNat]? = some label) (hslots : top + label.length ≤ slots.length) :
    ∃ f rest, frames.drop depth.toNat = f :: rest ∧
      Execution.branch depth ⟨o, .ofLists slots limit frames localBase callDepth⟩ =
        .ok () (Execution.landed f o slots limit rest localBase callDepth) := by
  obtain ⟨f, rest, hdrop, harity, hbase⟩ := h.frame hlabel
  exact ⟨f, rest, hdrop, Execution.branch_ofLists hdrop (by omega)⟩

/-- A return lands at the frame of the call. -/
theorem ret (h : Labelled Γ frames top room) (hslots : top + Γ.results.length ≤ slots.length) :
    ∃ depth f rest, frames.findIdx? (·.kind = .call) = some depth ∧
      Γ.labels[depth]? = some Γ.results ∧ frames.drop depth = f :: rest ∧
      Execution.ret ⟨o, .ofLists slots limit frames localBase callDepth⟩ =
        .ok () (Execution.landed f o slots limit rest localBase callDepth) := by
  obtain ⟨depth, hindex, hresults, hroom⟩ := h.call
  obtain ⟨f, rest, hdrop, harity, hbase⟩ := h.frame hresults
  have hdepth : (UInt32.ofNat depth).toNat = depth := UInt32.toNat_ofNat_of_lt' (by
    show depth < 4294967296
    omega)
  refine ⟨depth, f, rest, hindex, hresults, hdrop, ?_⟩
  unfold Execution.ret
  rw [Execution.bind_get, Thread.frames_ofLists, Stack.items_ofList, hindex]
  exact Execution.branch_ofLists (by rw [hdepth]; exact hdrop) (by omega)

end Labelled

/-! ### Steps of an activation -/

namespace Activation

variable {b : Bindings} {o : Objects} {slots : List UInt64} {limit : Nat} {frames : List Frame}
  {localBase callDepth : Nat} {f : Frame}

/-- At the end of its body a frame is closed. -/
theorem advance_nil (hrest : f.rest = []) (h : f.base + f.results ≤ slots.length) :
    advance b ⟨o, .ofLists slots limit (f :: frames) localBase callDepth⟩ =
      .ok none (Execution.left f o slots limit frames localBase callDepth) := by
  unfold advance
  rw [Execution.bind_get, Thread.frames_ofLists, Stack.items_ofList]
  dsimp only
  rw [hrest]
  dsimp only
  rw [Execution.bind_ok (Execution.exitFrame_ofLists h)]
  rfl

/-- Otherwise the next instruction is executed, with the frame already past it; a failure is
reported from its place. -/
theorem advance_cons {i : Instr} {rest : Expr} (hrest : f.rest = i :: rest) :
    advance b ⟨o, .ofLists slots limit (f :: frames) localBase callDepth⟩ =
      match Execution.execute b i
        ⟨o, .ofLists slots limit ({ f with rest } :: frames) localBase callDepth⟩ with
      | .ok call x => .ok (call.map (·, f.site i)) x
      | .error e x => .error (e.at (f.site i)) x := by
  unfold advance
  rw [Execution.bind_get, Thread.frames_ofLists, Stack.items_ofList]
  dsimp only
  rw [hrest]
  dsimp only
  rw [Execution.bind_get, Thread.frames_ofLists, Stack.setTop_ofList_cons,
    Execution.bind_ok (Execution.setFrames_ofLists _)]
  show EStateM.bind (EStateM.tryCatch _ _) _ _ = _
  rw [EStateM.bind]
  delta EStateM.tryCatch
  dsimp only
  cases Execution.execute b i
    ⟨o, .ofLists slots limit ({ f with rest } :: frames) localBase callDepth⟩ <;> rfl

/-- The results of a call are the top of the slots. -/
theorem finish_ofLists {types : List ValueType} (h : types.length ≤ slots.length) :
    finish types ⟨o, .ofLists slots limit frames localBase callDepth⟩ =
      .ok ((types.zip (slots.take types.length).reverse).map fun (t, slot) => Value.ofSlot t slot)
        ⟨o, .ofLists (slots.drop types.length) limit frames localBase callDepth⟩ := by
  unfold finish
  rw [Execution.bind_ok Execution.operands_ofLists, OperandStack.popMany_ofList h,
    Execution.bind_ok (Execution.orTrap_ok _ _)]
  exact Execution.bind_ok (Execution.setOperands_ofLists _)

end Activation

end Wasm
