import Wasm.Proofs.Isolation.Encapsulation
import Wasm.Proofs.Lockstep.Stores

/-!
# Machines in step

Two machines over stores in step, that do the same and in which the same waits, take their steps
together (`Machine.InStep.step`): host functions are given the same answers, and calls go to
functions in step.  With equal limits nothing can part them, so their runs end alike; where the
limits differ, the first machine may meet one, and if nothing waits for it that is its end
(`Machine.Abreast.run`).
-/

namespace Wasm

variable {slack : Prop}

/-- The same call waits. -/
inductive Waiting.InStep (slack : Prop) : Waiting → Waiting → Prop
  | wasm {act act' : Activation} (h : act.InStep slack act') (type : FuncType)
      (site : Option Site) : Waiting.InStep slack (.wasm act type site) (.wasm act' type site)
  | host (caller : Caller) (type : FuncType) (next : Except Error (List Value) → Proc) :
      Waiting.InStep slack (.host caller type next) (.host caller type next)

/-- The same is to be done. -/
inductive Focus.InStep (slack : Prop) : Focus → Focus → Prop
  | wasm {act act' : Activation} (h : act.InStep slack act') :
      Focus.InStep slack (.wasm act) (.wasm act')
  | host (caller : Caller) (type : FuncType) (proc : Proc) :
      Focus.InStep slack (.host caller type proc) (.host caller type proc)
  | call (caller : Caller) (call : Call) : Focus.InStep slack (.call caller call) (.call caller call)
  | returned (r : Except Error (List Value)) : Focus.InStep slack (.returned r) (.returned r)

/-- Two machines in step. -/
structure Machine.InStep (slack : Prop) (m m' : Machine) : Prop where
  store : m.store.InStep slack m'.store
  focus : m.focus.InStep slack m'.focus
  waiting : List.Forall₂ (Waiting.InStep slack) m.waiting m'.waiting

/-- Two machines in step, or the first one has met a limit that the second one need not meet. -/
inductive Machine.Abreast (slack : Prop) (m m' : Machine) : Prop
  | exhausted {e : Error} (hslack : slack) (he : e.Exhausted)
      (hfocus : m.focus = .returned (.error e))
  | inStep (h : m.InStep slack m')

section

variable {s s' : Store} {act act' : Activation} {waiting waiting' : List Waiting}
  {m m' : Machine}

theorem Activation.Ended.cases {α : Type} {r r' : EStateM.Result Error Store α}
    (h : Activation.Ended slack act act' r r') :
    (∃ e t, slack ∧ e.Exhausted ∧ r = .error e t) ∨
      (∃ a t t', r = .ok a t ∧ r' = .ok a t' ∧ t.InStep slack t') ∨
      ∃ e t t', r = .error e t ∧ r' = .error e t' ∧ (act.undo t).InStep slack (act'.undo t') := by
  cases h with
  | exhausted hslack he => exact .inl ⟨_, _, hslack, he, rfl⟩
  | ok h => exact .inr (.inl ⟨_, _, _, rfl, rfl, h⟩)
  | error h => exact .inr (.inr ⟨_, _, _, rfl, rfl, h⟩)

namespace Machine

theorem abreast_returned (r : Except Error (List Value)) (h : s.InStep slack s')
    (hwaiting : List.Forall₂ (Waiting.InStep slack) waiting waiting') :
    Abreast slack ⟨s, .returned r, waiting⟩ ⟨s', .returned r, waiting'⟩ :=
  .inStep ⟨h, .returned r, hwaiting⟩

/-- A failed activation. -/
theorem abreast_fail (e : Error) (h : (act.undo s).InStep slack (act'.undo s'))
    (hact : act.InStep slack act')
    (hwaiting : List.Forall₂ (Waiting.InStep slack) waiting waiting') :
    Abreast slack (fail s act e waiting) (fail s' act' e waiting') :=
  .inStep ⟨hact.release h, .returned _, hwaiting⟩

/-! ### Calls -/

theorem abreast_invokeIndex (a : Address) (exclusive : Bool) (index : UInt32) (args : List Value)
    (h : s.InStep slack s') (hwaiting : List.Forall₂ (Waiting.InStep slack) waiting waiting') :
    Abreast slack (invokeIndex s a exclusive index args waiting)
      (invokeIndex s' a exclusive index args waiting') := by
  unfold invokeIndex
  have hinstance := h.instances a
  generalize s.instance? a = found at hinstance
  generalize s'.instance? a = found' at hinstance
  cases hinstance with
  | none => exact abreast_returned _ h hwaiting
  | @some i i' hi =>
    dsimp only
    have htaken := h.take a exclusive
    revert htaken
    generalize (if exclusive = true then s.modifyInstance a _ else s) = t
    generalize (if exclusive = true then s'.modifyInstance a _ else s') = t'
    intro htaken
    have hfunc := hi.bindings.func index
    generalize i.bindings.func index = f at hfunc
    generalize i'.bindings.func index = f' at hfunc
    cases hfunc with
    | exhausted hslack ht => exact .exhausted hslack ht rfl
    | error e =>
      have hact : Activation.InStep slack ⟨a, [], i.thread, exclusive⟩
          ⟨a, [], i'.thread, exclusive⟩ := ⟨rfl, rfl, hi.thread, rfl⟩
      exact abreast_fail _ (hact.undo htaken) hact hwaiting
    | @ok f f' hf =>
      dsimp only
      rw [hf.type_eq]
      have hact : Activation.InStep slack ⟨a, f.type.results, i.thread, exclusive⟩
          ⟨a, f.type.results, i'.thread, exclusive⟩ := ⟨rfl, rfl, hi.thread, rfl⟩
      cases f.type.checkArgs (args.map Value.type) with
      | error e => exact abreast_fail _ (hact.undo htaken) hact hwaiting
      | ok _ =>
        dsimp only
        rcases (htaken.runLockstep hact fun hb => Activation.lockstep_enter hb index args).cases with
          ⟨e, u, hslack, he, hrun⟩ | ⟨sent, u, u', hrun, hrun', hu⟩ | ⟨e, u, u', hrun, hrun', hu⟩
        · rw [hrun]
          exact .exhausted hslack he rfl
        · rw [hrun, hrun']
          cases sent with
          | none => exact .inStep ⟨hu, .wasm hact, hwaiting⟩
          | some call => exact .inStep ⟨hu, .call .., .cons (.wasm hact ..) hwaiting⟩
        · rw [hrun, hrun']
          exact abreast_fail _ hu hact hwaiting

theorem abreast_invokeExport (a : Address) (exclusive : Bool) (name : String) (args : List Value)
    (h : s.InStep slack s') (hwaiting : List.Forall₂ (Waiting.InStep slack) waiting waiting') :
    Abreast slack (invokeExport s a exclusive name args waiting)
      (invokeExport s' a exclusive name args waiting') := by
  unfold invokeExport
  have hinstance := h.instances a
  generalize s.instance? a = found at hinstance
  generalize s'.instance? a = found' at hinstance
  cases hinstance with
  | none => exact abreast_returned _ h hwaiting
  | @some i i' hi =>
    dsimp only
    rw [hi.bindings.exportIndex]
    cases i.bindings.exportIndex .func name with
    | error e => exact abreast_returned _ h hwaiting
    | ok index => exact abreast_invokeIndex _ _ _ _ h hwaiting

theorem abreast_invokeHandle (a : Address) (name : String) (args : List Value)
    (h : s.InStep slack s') (hwaiting : List.Forall₂ (Waiting.InStep slack) waiting waiting') :
    Abreast slack (invokeHandle s a name args waiting) (invokeHandle s' a name args waiting') := by
  unfold invokeHandle
  rw [h.isBusy]
  split
  · exact abreast_returned _ h hwaiting
  · exact abreast_invokeExport _ _ _ _ h hwaiting

theorem abreast_invokeNative (native : NativeModule) (name : String) (args : List Value)
    (h : s.InStep slack s') (hwaiting : List.Forall₂ (Waiting.InStep slack) waiting waiting') :
    Abreast slack (invokeNative s native name args waiting)
      (invokeNative s' native name args waiting') := by
  unfold invokeNative
  cases native.func name with
  | error e => exact abreast_returned _ h hwaiting
  | ok f => exact .inStep ⟨h, .call .., hwaiting⟩

theorem abreast_callRef (caller : Caller) (call : Call) (h : s.InStep slack s')
    (hwaiting : List.Forall₂ (Waiting.InStep slack) waiting waiting') :
    Abreast slack (callRef s caller call waiting) (callRef s' caller call waiting') := by
  obtain ⟨f, args⟩ := call
  unfold callRef
  cases f with
  | host type run =>
    dsimp only
    cases type.checkArgs (args.map Value.type) with
    | error e => exact abreast_returned _ h hwaiting
    | ok _ => exact .inStep ⟨h, .host .., hwaiting⟩
  | owned type owner index =>
    dsimp only
    rw [h.isBusy]
    split
    · exact abreast_returned _ h hwaiting
    · exact abreast_invokeIndex _ _ _ _ h hwaiting

/-! ### Steps -/

theorem abreast_stepWasm (h : s.InStep slack s') (hact : act.InStep slack act')
    (hwaiting : List.Forall₂ (Waiting.InStep slack) waiting waiting') :
    Abreast slack (stepWasm s act waiting) (stepWasm s' act' waiting') := by
  unfold stepWasm
  rw [hact.isFinished h, hact.results]
  cases hfinished : act.isFinished s with
  | true =>
    rw [if_pos rfl, if_pos rfl]
    rcases (h.runLockstep hact fun _ => Activation.lockstep_finish act.results).cases with
      ⟨e, t, hslack, he, hrun⟩ | ⟨values, t, t', hrun, hrun', ht⟩ | ⟨e, t, t', hrun, hrun', ht⟩
    · rw [hrun]
      exact .exhausted hslack he rfl
    · rw [hrun, hrun']
      exact abreast_returned _ (hact.release ht) hwaiting
    · rw [hrun, hrun']
      exact abreast_fail _ ht hact hwaiting
  | false =>
    rw [if_neg Bool.false_ne_true, if_neg Bool.false_ne_true]
    rcases (h.runAdvance hact hfinished).cases with
      ⟨e, t, hslack, he, hrun⟩ | ⟨sent, t, t', hrun, hrun', ht⟩ | ⟨e, t, t', hrun, hrun', ht⟩
    · rw [hrun]
      exact .exhausted hslack he rfl
    · rw [hrun, hrun']
      cases sent with
      | none => exact .inStep ⟨ht, .wasm hact, hwaiting⟩
      | some sent =>
        dsimp only
        rw [hact.self]
        exact .inStep ⟨ht, .call .., .cons (.wasm hact ..) hwaiting⟩
    · rw [hrun, hrun']
      exact abreast_fail _ ht hact hwaiting

theorem abreast_stepHost (caller : Caller) (type : FuncType) (proc : Proc)
    (h : s.InStep slack s') (hwaiting : List.Forall₂ (Waiting.InStep slack) waiting waiting') :
    Abreast slack (stepHost s caller type waiting proc) (stepHost s' caller type waiting' proc) := by
  cases proc with
  | done r =>
    cases r with
    | error e => exact abreast_returned _ h hwaiting
    | ok values =>
      unfold stepHost
      dsimp only
      cases type.checkResults (values.map Value.type) with
      | error e => exact abreast_returned _ h hwaiting
      | ok _ => exact abreast_returned _ h hwaiting
  | ask request next =>
    obtain ⟨hanswer, hstore⟩ := h.answer caller request
    unfold stepHost
    dsimp only
    rw [hanswer]
    exact .inStep ⟨hstore, .host .., hwaiting⟩
  | invoke target name args next =>
    have hnext : List.Forall₂ (Waiting.InStep slack) (.host caller type next :: waiting)
        (.host caller type next :: waiting') := .cons (.host ..) hwaiting
    unfold stepHost
    cases target with
    | caller =>
      cases caller with
      | «instance» a => exact abreast_invokeExport _ _ _ _ h hnext
      | native m => exact abreast_invokeNative _ _ _ h hnext
    | handle n =>
      dsimp only
      rw [h.handle?]
      cases s.handle? n with
      | some a => exact abreast_invokeHandle _ _ _ h hnext
      | none => exact .inStep ⟨h, .host .., hwaiting⟩
  | call source args otherwise next =>
    unfold stepHost
    dsimp only
    rw [h.funcAt]
    cases s.funcAt caller source with
    | some f => exact .inStep ⟨h, .call .., .cons (.host ..) hwaiting⟩
    | none => exact .inStep ⟨h, .host .., hwaiting⟩

theorem abreast_resumeWasm (type : FuncType) (site : Option Site)
    (result : Except Error (List Value)) (h : s.InStep slack s') (hact : act.InStep slack act')
    (hwaiting : List.Forall₂ (Waiting.InStep slack) waiting waiting') :
    Abreast slack (resumeWasm s act type site waiting result)
      (resumeWasm s' act' type site waiting' result) := by
  unfold resumeWasm
  cases result with
  | error e => exact abreast_fail _ (hact.undo h) hact hwaiting
  | ok values =>
    dsimp only
    rcases (h.runLockstep hact fun _ => Activation.lockstep_resume type values).cases with
      ⟨e, t, hslack, he, hrun⟩ | ⟨_, t, t', hrun, hrun', ht⟩ | ⟨e, t, t', hrun, hrun', ht⟩
    · rw [hrun]
      refine .exhausted (e := _) hslack ?_ rfl
      cases site with
      | none => exact he
      | some site => exact he
    · rw [hrun, hrun']
      exact .inStep ⟨ht, .wasm hact, hwaiting⟩
    · rw [hrun, hrun']
      exact abreast_fail _ ht hact hwaiting

/-- Machines in step take their steps together, unless the first one meets a limit. -/
theorem InStep.step (h : m.InStep slack m') : Abreast slack m.step m'.step := by
  obtain ⟨s, focus, waiting⟩ := m
  obtain ⟨s', focus', waiting'⟩ := m'
  obtain ⟨hstore, hfocus, hwaiting⟩ := h
  dsimp only at hstore hfocus hwaiting
  cases hfocus with
  | wasm hact => exact abreast_stepWasm hstore hact hwaiting
  | host caller type proc => exact abreast_stepHost caller type proc hstore hwaiting
  | call caller call => exact abreast_callRef caller call hstore hwaiting
  | returned r =>
    cases hwaiting with
    | nil => exact abreast_returned r hstore .nil
    | cons hfirst hrest =>
      cases hfirst with
      | wasm hact type site => exact abreast_resumeWasm type site r hstore hact hrest
      | host caller type next => exact .inStep ⟨hstore, .host .., hrest⟩

/-! ### Runs -/

theorem InStep.isOpen (h : m.InStep slack m') (hopen : m.Open []) : m'.Open [] := by
  obtain ⟨s, focus, waiting⟩ := m
  obtain ⟨s', focus', waiting'⟩ := m'
  obtain ⟨-, hfocus, hwaiting⟩ := h
  intro hnil r hreturned
  obtain rfl : waiting' = [] := hnil
  obtain rfl : focus' = .returned r := hreturned
  dsimp only at hfocus hwaiting
  cases hwaiting
  cases hfocus
  exact hopen rfl r rfl

/-- A machine whose call has returned is in step only with one that has the same result. -/
theorem InStep.returned {t : Store} {r : Except Error (List Value)}
    (h : InStep slack ⟨t, .returned r, []⟩ m') :
    ∃ t', m' = ⟨t', .returned r, []⟩ ∧ t.InStep slack t' := by
  obtain ⟨t', focus', waiting'⟩ := m'
  obtain ⟨hstore, hfocus, hwaiting⟩ := h
  dsimp only at hstore hfocus hwaiting
  cases hfocus
  cases hwaiting
  exact ⟨t', rfl, hstore⟩

/-- Two runs: the first one ends at a limit that the second one need not meet, or both end alike. -/
inductive EndsAbreast (slack : Prop) (x x' : Option (Except Error (List Value) × Store)) : Prop
  | exhausted {e : Error} {t : Store} (hslack : slack) (he : e.Exhausted)
      (hx : x = some (.error e, t))
  | same (h : SameEnd (Store.InStep slack) x x')

/-- Runs with the same fuel.  Where the first machine may meet a limit on its own, nothing may wait
for it to return. -/
theorem Abreast.run {m m' : Machine} (h : Abreast slack m m')
    (hsolo : slack → ∀ m₁, Safety.Within [] m m₁ → m₁.waiting = []) (fuel : Nat) :
    EndsAbreast slack (m.run fuel) (m'.run fuel) := by
  cases h with
  | exhausted hslack he hfocus =>
    obtain ⟨t, focus, waiting⟩ := m
    obtain rfl : waiting = [] := hsolo hslack _ .refl
    dsimp only at hfocus
    rw [hfocus, Safety.run_returned]
    exact .exhausted hslack he rfl
  | inStep h =>
    by_cases hopen : m.Open []
    · cases fuel with
      | zero =>
        rw [(Safety.run_eq_of_open hopen).1, (Safety.run_eq_of_open (h.isOpen hopen)).1]
        exact .same .none
      | succ fuel =>
        rw [(Safety.run_eq_of_open hopen).2, (Safety.run_eq_of_open (h.isOpen hopen)).2]
        exact h.step.run (fun hslack m₁ hm₁ => hsolo hslack m₁ (.cons hopen hm₁)) fuel
    · obtain ⟨t, r, rfl⟩ := Safety.eq_of_not_open hopen
      obtain ⟨t', rfl, ht⟩ := h.returned
      rw [Safety.run_returned, Safety.run_returned]
      exact .same (.some ht)

end Machine

/-- A call from outside, in stores in step. -/
theorem Invocation.abreast_begin (p : Invocation) (a : Address) (h : s.InStep slack s') :
    (p.begin s a).Abreast slack (p.begin s' a) := by
  cases p with
  | named name args => exact Machine.abreast_invokeHandle a name args h .nil
  | indexed index args => exact Machine.abreast_invokeIndex a true index args h .nil
  | referred caller type index args => exact .inStep ⟨h, .call .., .nil⟩

end

end Wasm
