import Wasm.Proofs.Safety.Returns

/-!
# The machine refines the structured semantics

A call of a function of an instance that can call its own functions only.  Unless the machine
reaches one of its limits, the call returns certain values, or fails with a certain code, and leaves
certain objects exactly if it does so in the structured semantics.

The simulation is about the steps of one activation; here they become steps of the machine.  What
the structured semantics does with some fuel the machine does as well, and if the fuel does not
suffice the machine takes at least as many steps.  So a call that returns has an outcome there, and
as a call returns once, it is the same.
-/

namespace Wasm.Structured

open Activation (advance)
open Safety (Ends GoesOn Within Reachable settled)

variable {b : Bindings} {s : Store} {act : Activation} {i : Instance} {x y : Execution}
  {waiting : List Waiting} {floor : Nat}

/-! ### Steps of the machine -/

theorem objects_release (s : Store) (act : Activation) :
    (act.release s).objects = s.objects := by
  unfold Activation.release
  split <;> rfl

/-- The machine that runs an activation, with its thread and the objects as in an execution. -/
def running (s : Store) (act : Activation) (i : Instance) (waiting : List Waiting)
    (x : Execution) : Machine :=
  ⟨settled s act.self i x, .wasm act, waiting⟩

theorem open_running (s : Store) (act : Activation) (i : Instance) (waiting : List Waiting)
    (x : Execution) : Machine.Open waiting (running s act i waiting x) :=
  Safety.open_of_wasm

theorem settled_settled (s : Store) (a : Address) (i : Instance) (x y : Execution) :
    settled (settled s a i x) a { i with thread := x.thread } y = settled s a i y := by
  unfold settled
  rw [Array.setIfInBounds_setIfInBounds]

theorem instance?_settled_self (hi : s.instance? act.self = some i) (x : Execution) :
    (settled s act.self i x).instance? act.self = some { i with thread := x.thread } := by
  rw [Safety.instance?_settled hi, if_pos rfl]

/-- A part of an activation goes on from where the one before it has come to. -/
theorem run_settled {α : Type} (hi : s.instance? act.self = some i)
    (part : Bindings → Execution.Step α) :
    act.run part (settled s act.self i x) = match part i.bindings x with
      | .ok a y => .ok a (settled s act.self i y)
      | .error e y => .error e (settled s act.self i y) := by
  rw [Safety.run_eq (instance?_settled_self hi x)]
  simp only [settled_settled]
  rfl

theorem step_running (waiting : List Waiting) (hi : s.instance? act.self = some i)
    (hframes : act.entry.frames.height < x.thread.frames.height) :
    (running s act i waiting x).step = match advance i.bindings x with
      | .error e y => Machine.fail (settled s act.self i y) act e waiting
      | .ok none y => running s act i waiting y
      | .ok (some (call, site)) y => ⟨settled s act.self i y, .call (.instance act.self) call,
          .wasm act call.func.type (some site) :: waiting⟩ := by
  have hfinished : act.isFinished (settled s act.self i x) = false := by
    rw [Activation.isFinished, instance?_settled_self hi x]
    exact decide_eq_false (Nat.not_le.mpr hframes)
  unfold running Machine.step
  dsimp only
  unfold Machine.stepWasm
  rw [hfinished, if_neg Bool.false_ne_true, run_settled hi]
  cases advance i.bindings x with
  | error e y => rfl
  | ok call y => rcases call with _ | ⟨call, site⟩ <;> rfl

/-- When the frames of the activation are closed, the call returns what is on top. -/
theorem step_running_finished {slots : List UInt64}
    (waiting : List Waiting) (o : Objects) (hi : s.instance? act.self = some i)
    (hslots : slots.length = act.results.length) :
    ∃ s', (running s act i waiting ⟨o, .ofLists (slots ++ act.entry.operands.slots.items)
        act.entry.operands.limit act.entry.frames.items act.entry.localBase
        act.entry.callDepth⟩).step =
      ⟨s', .returned (.ok ((act.results.zip slots.reverse).map fun (t, slot) =>
        Value.ofSlot t slot)), waiting⟩ ∧ s'.objects = o := by
  generalize hx : Execution.mk o (.ofLists (slots ++ act.entry.operands.slots.items)
    act.entry.operands.limit act.entry.frames.items act.entry.localBase act.entry.callDepth) = x
  have hfinished : act.isFinished (settled s act.self i x) = true := by
    rw [Activation.isFinished, instance?_settled_self hi x, ← hx]
    refine decide_eq_true (Nat.le_of_eq ?_)
    show (Stack.ofList act.entry.frames.items).height = _
    rw [Stack.ofList_items]
  unfold running Machine.step
  dsimp only
  unfold Machine.stepWasm
  rw [hfinished, if_pos rfl, run_settled hi, ← hx,
    Activation.finish_ofLists (by rw [List.length_append]; omega), ← hslots, List.take_left]
  exact ⟨_, rfl, objects_release _ act⟩

/-! ### Runs of an activation -/

/-- Steps of the activation are steps of the machine. -/
theorem goesOn_of_advances {k : Nat} (waiting : List Waiting) (hi : s.instance? act.self = some i)
    (h : Advances i.bindings act.entry.frames.height k x y) :
    GoesOn waiting k (running s act i waiting x) ∧
      Machine.step^[k] (running s act i waiting x) = running s act i waiting y := by
  induction h with
  | refl => exact ⟨fun k hk => absurd hk (Nat.not_lt_zero k), rfl⟩
  | step hframes hstep _ ih =>
    have hnext := step_running waiting hi hframes
    rw [hstep] at hnext
    constructor
    · intro k hk
      cases k with
      | zero => exact open_running s act i waiting _
      | succ k =>
        rw [Function.iterate_succ_apply, hnext]
        exact ih.1 k (Nat.lt_of_succ_lt_succ hk)
    · rw [Function.iterate_succ_apply, hnext]
      exact ih.2

theorem within_of_advances {k : Nat} (hi : s.instance? act.self = some i)
    (h : Advances i.bindings act.entry.frames.height k x y) :
    Within waiting (running s act i waiting x) (running s act i waiting y) := by
  obtain ⟨hgoes, hiterate⟩ := goesOn_of_advances waiting hi h
  rw [← hiterate]
  exact hgoes.within

/-- Where the activation stops, the call fails. -/
theorem ends_of_stops {P : Error → Objects → Prop} (hi : s.instance? act.self = some i)
    (h : Stops i.bindings act.entry.frames.height x P) :
    ∃ e o, Ends waiting (running s act i waiting x) (.error e) o ∧ P e o := by
  obtain ⟨k, y, e, z, hrun, hframes, hstop, hP⟩ := h
  have hnext := step_running waiting hi hframes
  rw [hstop] at hnext
  have hwithin := (within_of_advances hi hrun).step (open_running s act i waiting y)
  rw [hnext] at hwithin
  exact ⟨e, z.objects, ⟨_, hwithin, objects_release _ act⟩, hP⟩

/-- Where the frames of the activation are closed, the call returns. -/
theorem ends_of_advances {k : Nat} {slots : List UInt64} {o : Objects}
    (waiting : List Waiting) (hi : s.instance? act.self = some i)
    (hslots : slots.length = act.results.length)
    (h : Advances i.bindings act.entry.frames.height k x ⟨o, .ofLists
      (slots ++ act.entry.operands.slots.items) act.entry.operands.limit act.entry.frames.items
      act.entry.localBase act.entry.callDepth⟩) :
    Ends waiting (running s act i waiting x) (.ok ((act.results.zip slots.reverse).map
      fun (t, slot) => Value.ofSlot t slot)) o := by
  obtain ⟨s', hnext, ho⟩ := step_running_finished waiting o hi hslots
  have hwithin := (within_of_advances hi h).step (open_running s act i waiting _)
  rw [hnext] at hwithin
  exact ⟨s', hwithin, ho⟩

/-! ### Calls from outside -/

/-- The execution at the first instruction of a function that is called from outside. -/
def entered (sig : FuncType) (localCount : Nat) (e : Expr) (args : List UInt64) (t : Thread)
    (o : Objects) : Execution :=
  ⟨o, .ofLists (List.replicate localCount 0 ++ (args.reverse ++ t.operands.slots.items))
    t.operands.limit
    (Execution.callFrame sig e t.operands.slots.items.length t.localBase :: t.frames.items)
    t.operands.slots.items.length (t.callDepth + 1)⟩

theorem enter_defined {index : UInt32} {sig : FuncType} {localCount : Nat} {e : Expr}
    {args : List Value} {t : Thread} {o : Objects}
    (hf : b.func index = .ok (.defined sig localCount e))
    (hargs : (args.map Value.toSlot).length = sig.params.length) :
    (∃ (u : Trap) (x : Execution), (u = .callStackExhausted t.callDepth ∨ u = .stackOverflow) ∧
      x.objects = o ∧ Activation.enter index args b ⟨o, t⟩ = .error u.error x) ∨
    Activation.enter index args b ⟨o, t⟩ =
      .ok none (entered sig localCount e (args.map Value.toSlot) t o) := by
  rcases Execution.pushAll_cases o t (args.map Value.toSlot) (Execution.call b index) with
    hrun | hrun
  · exact .inl ⟨.stackOverflow, ⟨o, t⟩, .inr rfl, rfl, hrun⟩
  · have hlength : ((args.map Value.toSlot).reverse ++ t.operands.slots.items).length =
        sig.params.length + t.operands.slots.items.length := by
      rw [List.length_append, List.length_reverse, hargs]
    rcases @Execution.call_defined b o _ t.operands.limit t.frames.items t.localBase t.callDepth
      index sig localCount e hf (by rw [hlength]; exact Nat.le_add_right _ _) with
      ⟨u, hu, hcall⟩ | hcall
    · exact .inl ⟨u, _, hu, rfl, hrun.trans hcall⟩
    · rw [hlength, Nat.add_sub_cancel_left] at hcall
      exact .inr (hrun.trans hcall)

/-- How a call by index begins, apart from the instance being taken. -/
theorem invokeIndex_eq {a : Address} (exclusive : Bool) (index : UInt32) (args : List Value)
    (waiting : List Waiting) (hi : s.instance? a = some i) :
    ∃ s' i', s'.objects = s.objects ∧ s'.instance? a = some i' ∧ i'.bindings = i.bindings ∧
      Machine.invokeIndex s a exclusive index args waiting =
        match i.bindings.func index with
        | .error t => Machine.fail s' ⟨a, [], i.thread, exclusive⟩ t.error waiting
        | .ok f =>
          match f.type.checkArgs (args.map Value.type) with
          | .error e => Machine.fail s' ⟨a, f.type.results, i.thread, exclusive⟩ e waiting
          | .ok () =>
            match Activation.enter index args i.bindings ⟨s.objects, i.thread⟩ with
            | .error e x =>
              Machine.fail (settled s' a i' x) ⟨a, f.type.results, i.thread, exclusive⟩ e waiting
            | .ok none x => running s' ⟨a, f.type.results, i.thread, exclusive⟩ i' waiting x
            | .ok (some call) x => ⟨settled s' a i' x, .call (.instance a) call,
              .wasm ⟨a, f.type.results, i.thread, exclusive⟩ call.func.type none :: waiting⟩ := by
  generalize htaken : (if exclusive = true then s.modifyInstance a fun i => { i with busy := true }
    else s) = s'
  obtain ⟨hobjects, i', hi', hbindings, hthread⟩ : s'.objects = s.objects ∧ ∃ i',
      s'.instance? a = some i' ∧ i'.bindings = i.bindings ∧ i'.thread = i.thread := by
    rw [← htaken]
    split
    · refine ⟨rfl, { i with busy := true }, ?_, rfl, rfl⟩
      rw [Safety.instance?_modifyInstance, if_pos rfl, hi]
      rfl
    · exact ⟨rfl, i, hi, rfl, rfl⟩
  refine ⟨s', i', hobjects, hi', hbindings, ?_⟩
  unfold Machine.invokeIndex
  rw [hi]
  dsimp only
  rw [htaken]
  cases i.bindings.func index with
  | error t => rfl
  | ok f =>
    dsimp only
    cases f.type.checkArgs (args.map Value.type) with
    | error e => rfl
    | ok _ =>
      dsimp only
      rw [@Safety.run_eq s' _ ⟨a, f.type.results, i.thread, exclusive⟩ i' hi', hbindings, hthread,
        hobjects]
      cases Activation.enter index args i.bindings ⟨s.objects, i.thread⟩ with
      | error e x => rfl
      | ok call x => cases call <;> rfl

/-! ### Calls in both semantics -/

/-- What the outcome of a call in the structured semantics means for the machine. -/
def Matches (waiting : List Waiting) (m : Machine) (least : Nat) :
    Option (Except Error (List Value) × Objects) → Prop
  | none => GoesOn waiting least m
  | some (.ok values, o) => Ends waiting m (.ok values) o
  | some (.error e, o) => ∃ e', Ends waiting m (.error e') o ∧ e'.code = e.code

/-- The call fails at the limit of the operand stack or of the call depth. -/
def Exhausts (waiting : List Waiting) (m : Machine) : Prop :=
  ∃ e o, Ends waiting m (.error e) o ∧
    (e.code = Code.stackOverflow ∨ e.code = Code.callStackExhausted)

/-- A function of the instance, from its first instruction on. -/
theorem matches_function {index : UInt32} {sig : FuncType} {localCount : Nat} {e : Expr}
    {args : List UInt64} {o : Objects} {T : Array Table} (hi : s.instance? act.self = some i)
    (hresults : act.results = sig.results) (hwired : Wired i.bindings)
    (hclosed : Closed i.bindings T) (hlinked : LinkedTo i.bindings T o)
    (hf : i.bindings.func index = .ok (.defined sig localCount e))
    (hargs : args.length = sig.params.length) (fuel : Nat) :
    Exhausts waiting (running s act i waiting (entered sig localCount e args act.entry o)) ∨
      Matches waiting (running s act i waiting (entered sig localCount e args act.entry o)) fuel
        ((function (body i.bindings fuel) (.defined sig localCount e) args o).map fun
          | (.ok results, o) =>
            (.ok ((sig.results.zip results.reverse).map fun (t, slot) => Value.ofSlot t slot), o)
          | (.error t, o) => (.error t.error, o)) := by
  have hgoes := tracks_function ⟨[], act.entry.operands.slots.items, act.entry.operands.limit,
    act.entry.frames.items, act.entry.callDepth + 1⟩ (tracks_body_loop hwired hclosed fuel).1
    hwired hf hargs hlinked rfl
    (Nat.le_of_eq act.entry.frames.height_eq) act.entry.localBase
  rcases hgoes with hexceeds | hfinishes
  · obtain ⟨err, o', hends, hcode⟩ := ends_of_stops hi hexceeds
    exact .inl ⟨err, o', hends, hcode⟩
  · refine .inr ?_
    generalize function (body i.bindings fuel) (.defined sig localCount e) args o = r
      at hfinishes ⊢
    rcases r with _ | ⟨t | slots, o'⟩
    · obtain ⟨k, y, hle, hrun⟩ := hfinishes
      exact fun j hj => (goesOn_of_advances waiting hi hrun).1 j (Nat.lt_of_lt_of_le hj hle)
    · have hstops : Stops i.bindings act.entry.frames.height _
        fun err o => err.code = t.code ∧ o = o' := hfinishes
      obtain ⟨err, o', hends, hcode, rfl⟩ := ends_of_stops hi hstops
      exact ⟨err, hends, hcode⟩
    · obtain ⟨hslots, -, k, hrun⟩ := hfinishes
      have hends := ends_of_advances waiting hi
        (hslots.trans (congrArg List.length hresults.symm)) hrun
      rw [hresults] at hends
      exact hends

/-- What the structured semantics does with some fuel the machine does as well, unless it reaches a
limit; and where the fuel does not suffice, it takes at least as many steps. -/
theorem matches_invoke {a : Address} (exclusive : Bool) (index : UInt32) (args : List Value)
    (waiting : List Waiting) (hsound : Safety.Sound s) (hb : s.bindings? a = some b)
    (hclosed : Closed b s.objects.tables) (fuel : Nat) :
    Exhausts waiting (Machine.invokeIndex s a exclusive index args waiting) ∨
      Matches waiting (Machine.invokeIndex s a exclusive index args waiting) fuel
        (invoke fuel b index args s.objects) := by
  obtain ⟨i, hi, rfl, -⟩ := Safety.exists_instance hb
  have hbound := hsound.instances hb
  obtain ⟨s', i', hobjects, hi', hbindings, hinvoke⟩ := invokeIndex_eq exclusive index args waiting hi
  have hfails (act : Activation) (e : Error) {s'' : Store} (h : s''.objects = s.objects) :
      Ends waiting (Machine.fail s'' act e waiting) (.error e) s.objects :=
    ⟨_, .refl, (objects_release _ act).trans h⟩
  rw [hinvoke]
  unfold invoke
  cases hf : i.bindings.func index with
  | error t => exact .inr ⟨t.error, hfails _ _ hobjects, rfl⟩
  | ok f =>
    dsimp only
    cases hcheck : f.type.checkArgs (args.map Value.type) with
    | error e => exact .inr ⟨e, hfails _ _ hobjects, rfl⟩
    | ok _ =>
      obtain ⟨sig, localCount, e, rfl⟩ := hclosed.defined hf
      have hargs : (args.map Value.toSlot).length = sig.params.length := by
        have hlength := congrArg List.length (Safety.checkArgs_eq_ok_iff.mp hcheck)
        rw [List.length_map] at hlength ⊢
        exact hlength
      dsimp only
      rcases enter_defined (t := i.thread) (o := s.objects) hf hargs with
        ⟨u, x, hu, hx, henter⟩ | henter
      · rw [henter]
        refine .inl ⟨u.error, s.objects, hfails _ u.error hx, ?_⟩
        rcases hu with rfl | rfl
        · exact .inr rfl
        · exact .inl rfl
      · rw [henter]
        rw [← hbindings] at hbound hclosed hf ⊢
        exact matches_function hi' rfl hbound.wired hclosed ⟨hbound.linked, rfl⟩ hf hargs fuel

/-- An instance whose module imports no functions and whose table holds only its own. -/
theorem closed_of_sound {a : Address} (hsound : Safety.Sound s) (hb : s.bindings? a = some b)
    (himports : b.module.importCount .func = 0)
    (htable : ∀ f, Holds b s.objects f → ∃ x, b.ownIndex? f = some x) :
    Closed b s.objects.tables := by
  constructor
  · intro x f hf
    cases f with
    | defined type localCount e => exact ⟨type, localCount, e, rfl⟩
    | imported r =>
      have hsome := (hsound.instances hb).wired.imports hf
      exact absurd himports (Nat.ne_of_gt hsome)
  · intro o f htables hholds
    have hholds' : Holds b s.objects f := by
      obtain ⟨a', table, k, ha', ht, hslot⟩ := hholds
      exact ⟨a', table, k, ha', htables ▸ ht, hslot⟩
    obtain ⟨x, hx⟩ := htable f hholds'
    obtain ⟨g, hg, htype⟩ := hsound.owns hb htables hholds hx
    exact ⟨x, g, hx, hg, htype⟩

/-- A call that does not fail at a limit returns certain values and leaves certain objects if and
only if it does so in the structured semantics, and it fails with a certain code and leaves certain
objects if and only if it does so there. -/
theorem flat_iff_structured {known : List FuncRef} {m : Machine} {a : Address} (index : UInt32)
    (exclusive : Bool) (args : List Value) (waiting : List Waiting) (h : Reachable known m)
    (hb : m.store.bindings? a = some b) (himports : b.module.importCount .func = 0)
    (htable : ∀ f, Holds b m.store.objects f → ∃ x, b.ownIndex? f = some x)
    (hlimits : ∀ e o,
      Ends waiting (Machine.invokeIndex m.store a exclusive index args waiting) (.error e) o →
        e.code ≠ Code.stackOverflow ∧ e.code ≠ Code.callStackExhausted) :
    (∀ values o,
      Ends waiting (Machine.invokeIndex m.store a exclusive index args waiting) (.ok values) o ↔
        ∃ fuel, invoke fuel b index args m.store.objects = some (.ok values, o)) ∧
    ∀ code o,
      (∃ e, Ends waiting (Machine.invokeIndex m.store a exclusive index args waiting) (.error e) o ∧
        e.code = code) ↔
        ∃ fuel e, invoke fuel b index args m.store.objects = some (.error e, o) ∧ e.code = code := by
  obtain ⟨⟨_, hsound, _⟩, -⟩ := h.orderly
  have hmatches (fuel : Nat) : Matches waiting
      (Machine.invokeIndex m.store a exclusive index args waiting) fuel
      (invoke fuel b index args m.store.objects) := by
    refine (matches_invoke exclusive index args waiting hsound hb
      (closed_of_sound hsound hb himports htable) fuel).resolve_left ?_
    rintro ⟨e, o, hends, hcode⟩
    obtain ⟨hstack, hcalls⟩ := hlimits e o hends
    exact hcode.elim hstack hcalls
  -- A call that ends has taken all its steps, so with more fuel there is an outcome.
  have houtcome {r : Except Error (List Value)} {o : Objects}
      (hends : Ends waiting (Machine.invokeIndex m.store a exclusive index args waiting) r o) :
      ∃ fuel x, invoke fuel b index args m.store.objects = some x := by
    obtain ⟨n, hn⟩ := hends.exists_bound
    refine ⟨n + 1, Option.ne_none_iff_exists'.mp fun hnone => ?_⟩
    have hgoes := hmatches (n + 1)
    rw [hnone] at hgoes
    exact absurd (hn hgoes) (Nat.not_succ_le_self n)
  refine ⟨fun values o => ⟨fun hends => ?_, ?_⟩, fun code o => ⟨?_, ?_⟩⟩
  · obtain ⟨fuel, ⟨r, o'⟩, hinvoke⟩ := houtcome hends
    have hgoes := hmatches fuel
    rw [hinvoke] at hgoes
    cases r with
    | ok values' =>
      obtain ⟨hvalues, rfl⟩ := hends.unique hgoes
      cases hvalues
      exact ⟨fuel, hinvoke⟩
    | error e =>
      obtain ⟨e', hends', -⟩ := hgoes
      exact nomatch (hends.unique hends').1
  · rintro ⟨fuel, hinvoke⟩
    have hgoes := hmatches fuel
    rwa [hinvoke] at hgoes
  · rintro ⟨e, hends, hcode⟩
    obtain ⟨fuel, ⟨r, o'⟩, hinvoke⟩ := houtcome hends
    have hgoes := hmatches fuel
    rw [hinvoke] at hgoes
    cases r with
    | ok values => exact nomatch (hends.unique hgoes).1
    | error e' =>
      obtain ⟨e'', hends', hcode'⟩ := hgoes
      obtain ⟨herror, rfl⟩ := hends.unique hends'
      cases herror
      exact ⟨fuel, e', hinvoke, hcode'.symm.trans hcode⟩
  · rintro ⟨fuel, e, hinvoke, hcode⟩
    have hgoes := hmatches fuel
    rw [hinvoke] at hgoes
    obtain ⟨e', hends, hcode'⟩ := hgoes
    exact ⟨e', hends, hcode'.trans hcode⟩

/-- The call that leaves a block by a branch returns 7, in both semantics. -/
theorem seven_in_both :
    Ends [] (Machine.invokeIndex Safety.sevenStore 0 true 0 [] []) (.ok [.i32 7]) {} ∧
    ∃ fuel, invoke fuel ⟨0, Safety.sevenModule, {}, #[.defined ⟨[], [.i32]⟩ 0 Safety.sevenBody], #[],
      none, none⟩ 0 [] {} = some (.ok [.i32 7], {}) := by
  have hends : Ends [] (Machine.invokeIndex Safety.sevenStore 0 true 0 [] []) (.ok [.i32 7]) {} :=
    ⟨(Safety.sevenAfter 5).store, Safety.within_seven 5 (Nat.le_refl 5), rfl⟩
  have hboth := flat_iff_structured (a := 0) 0 true [] [] Safety.reachable_seven rfl rfl
    (fun f ⟨_, _, _, htable, _⟩ => nomatch htable)
    (fun e o hfails => nomatch (hfails.unique hends).1)
  exact ⟨hends, (hboth.1 [.i32 7] {}).mp hends⟩

end Wasm.Structured
