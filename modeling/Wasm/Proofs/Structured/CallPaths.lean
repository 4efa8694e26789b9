import Wasm.Proofs.Safety.Canonical
import Wasm.Proofs.Safety.Recovery
import Wasm.Proofs.Safety.Reentrancy
import Wasm.Proofs.Structured.Refinement

/-!
# The two ways to call a function

An instance calls a function of its own by opening a frame for it, and a function of another
instance through the machine: the arguments become values, the other instance is entered with them,
and its results become slots again.  Which of the two happens depends on whose function an import or
an entry of a table is.

Neither way can be told from the other by what comes of it (`call_paths_agree`).  Both do what the
structured semantics does with the function, and as the slots of a machine that can be reached are
canonical for their types, nothing is lost on the way through the values.
-/

namespace Wasm.Structured

open Activation (advance)
open Safety (Ends Within Reachable Steady Owns Shows AllCanonical settled)

variable {b : Bindings} {floor : Nat} {index : UInt32} {x y : Execution} {o o' : Objects}
  {r r' : Except Nat (List UInt64)} {lower : List UInt64}

/-! ### Calls inside of an instance -/

/-- From `x` on the instance runs until the frames above `floor` are closed, with its results on top
of the slots `lower`, or until it stops; an error is known by its code. -/
inductive Exits (b : Bindings) (floor : Nat) (lower : List UInt64) (x : Execution) :
    Except Nat (List UInt64) → Objects → Prop where
  | returned {k : Nat} {y : Execution} {slots : List UInt64} (hrun : Advances b floor k x y)
      (hclosed : y.thread.frames.height ≤ floor)
      (hslots : y.thread.operands.slots.items = slots ++ lower) :
      Exits b floor lower x (.ok slots) y.objects
  | stopped {k : Nat} {y z : Execution} {e : Error} (hrun : Advances b floor k x y)
      (hframes : floor < y.thread.frames.height) (hstop : advance b y = .error e z) :
      Exits b floor lower x (.error e.code) z.objects

/-- A call by index inside of the instance, which has the arguments on top of the slots `lower`,
until the frame of the function is closed. -/
def CallsInside (b : Bindings) (index : UInt32) (lower : List UInt64) (x : Execution)
    (r : Except Nat (List UInt64)) (o : Objects) : Prop :=
  match Execution.call b index x with
  | .ok none y => Exits b x.thread.frames.height lower y r o
  | .ok (some _) _ => False
  | .error e y => r = .error e.code ∧ o = y.objects

theorem halted_of_closed (h : x.thread.frames.height ≤ floor) : Halted b floor x :=
  fun _ hframes => absurd hframes (Nat.not_lt.mpr h)

theorem halted_of_error {e : Error} (h : advance b x = .error e y) : Halted b floor x :=
  fun _ _ hstep => nomatch h.symm.trans hstep

namespace Exits

/-- Running comes to one end. -/
theorem unique (h : Exits b floor lower x r o) (h' : Exits b floor lower x r' o') :
    r = r' ∧ o = o' := by
  cases h with
  | returned hrun hclosed hslots =>
    cases h' with
    | returned hrun' hclosed' hslots' =>
      obtain rfl := hrun.unique hrun' (halted_of_closed hclosed) (halted_of_closed hclosed')
      have heq := List.append_cancel_right (hslots.symm.trans hslots')
      exact ⟨congrArg Except.ok heq, rfl⟩
    | stopped hrun' hframes hstop =>
      obtain rfl := hrun.unique hrun' (halted_of_closed hclosed) (halted_of_error hstop)
      exact absurd hframes (Nat.not_lt.mpr hclosed)
  | stopped hrun hframes hstop =>
    cases h' with
    | returned hrun' hclosed' hslots' =>
      obtain rfl := hrun.unique hrun' (halted_of_error hstop) (halted_of_closed hclosed')
      exact absurd hframes (Nat.not_lt.mpr hclosed')
    | stopped hrun' hframes' hstop' =>
      obtain rfl := hrun.unique hrun' (halted_of_error hstop) (halted_of_error hstop')
      cases hstop.symm.trans hstop'
      exact ⟨rfl, rfl⟩

/-- Running takes a certain number of steps. -/
theorem exists_bound (h : Exits b floor lower x r o) :
    ∃ n, ∀ {k : Nat} {y : Execution}, Advances b floor k x y → k ≤ n := by
  cases h with
  | returned hrun hclosed =>
    exact ⟨_, fun hrun' => (hrun.before_halted (halted_of_closed hclosed) hrun').1⟩
  | stopped hrun _ hstop =>
    exact ⟨_, fun hrun' => (hrun.before_halted (halted_of_error hstop) hrun').1⟩

end Exits

/-- A call inside of the instance comes to one end. -/
theorem CallsInside.unique (h : CallsInside b index lower x r o)
    (h' : CallsInside b index lower x r' o') : r = r' ∧ o = o' := by
  unfold CallsInside at h h'
  revert h h'
  cases Execution.call b index x with
  | error e y =>
    rintro ⟨rfl, rfl⟩ ⟨rfl, rfl⟩
    exact ⟨rfl, rfl⟩
  | ok call y =>
    cases call with
    | none => exact Exits.unique
    | some call => exact fun h _ => h.elim

/-! ### What the function does -/

/-- What a function does in the structured semantics, with the code of a trap. -/
def ending (b : Bindings) (fuel : Nat) (f : Func) (args : List UInt64) (o : Objects) :
    Option (Except Nat (List UInt64) × Objects) :=
  (function (body b fuel) f args o).map fun (r, o) => (r.mapError Trap.code, o)

/-- A relation that holds of what a computation gives with any fuel, and of one thing only, holds of
nothing else, if the fuel suffices at some time. -/
theorem iff_exists_fuel {α : Type} {P : α → Prop} {d : Nat → Option α}
    (hsome : ∀ {fuel a}, d fuel = some a → P a) (hunique : ∀ {a a'}, P a → P a' → a = a')
    (hbound : ∀ {a}, P a → ∃ n, ∀ fuel, d fuel = none → fuel ≤ n) (a : α) :
    P a ↔ ∃ fuel, d fuel = some a := by
  constructor
  · intro ha
    obtain ⟨n, hn⟩ := hbound ha
    cases hd : d (n + 1) with
    | none => exact absurd (hn _ hd) (Nat.not_succ_le_self n)
    | some a' =>
      obtain rfl := hunique ha (hsome hd)
      exact ⟨n + 1, hd⟩
  · rintro ⟨fuel, ha⟩
    exact hsome ha

section Inside

variable {f : Func} {args : List UInt64} {t : Thread}

/-- What a function of the instance does on the machine after a call inside of it. -/
theorem exits_or_advances (hwired : Wired b) (hlinked : Linked b o) (hclosed : Closed b o.tables)
    (hf : b.func index = .ok f) (hargs : args.length = f.type.params.length)
    (ht : t.operands.slots.items = args.reverse ++ lower) (fuel : Nat) :
    (∃ code o', CallsInside b index lower ⟨o, t⟩ (.error code) o' ∧
      (code = Code.stackOverflow ∨ code = Code.callStackExhausted)) ∨
    ∃ y, Execution.call b index ⟨o, t⟩ = .ok none y ∧
      match ending b fuel f args o with
      | none => ∃ k z, fuel ≤ k ∧ Advances b t.frames.height k y z
      | some (r, o') => Exits b t.frames.height lower y r o' := by
  obtain ⟨sig, localCount, e, rfl⟩ := hclosed.defined hf
  have hlength : t.operands.slots.items.length = sig.params.length + lower.length := by
    rw [ht, List.length_append, List.length_reverse, hargs]
    rfl
  rw [t.frames.height_eq]
  unfold CallsInside
  rcases @Execution.call_defined b o t.operands.slots.items t.operands.limit t.frames.items
    t.localBase t.callDepth index sig localCount e hf (by omega) with ⟨u, hu, hcall⟩ | hcall
  -- The call itself may already exceed a limit, or else the body runs in the frame that it pushes.
  · rw [← t.eq_ofLists] at hcall
    refine .inl ⟨u.code, o, ?_, ?_⟩
    · rw [hcall]
      exact ⟨rfl, rfl⟩
    · rcases hu with rfl | rfl
      · exact .inr rfl
      · exact .inl rfl
  · rw [← t.eq_ofLists, hlength, Nat.add_sub_cancel_left, ht] at hcall
    rw [hcall]
    rcases tracks_function ⟨[], lower, t.operands.limit, t.frames.items, t.callDepth + 1⟩
      (tracks_body_loop hwired hclosed fuel).1 hwired hf hargs ⟨hlinked, rfl⟩ rfl (Nat.le_refl _)
      t.localBase with hexceeds | hfinishes
    · obtain ⟨k, y, err, z, hrun, hframes, hstop, hcode⟩ := hexceeds
      refine .inl ⟨err.code, z.objects, ?_, hcode⟩
      rw [t.frames.height_eq]
      exact .stopped hrun hframes hstop
    · refine .inr ⟨_, rfl, ?_⟩
      unfold ending
      generalize function (body b fuel) (.defined sig localCount e) args o = outcome
        at hfinishes ⊢
      cases outcome with
      | none => exact hfinishes
      | some outcome =>
        obtain ⟨r, o'⟩ := outcome
        cases r with
        | ok slots =>
          obtain ⟨-, -, k, hrun⟩ := hfinishes
          exact .returned hrun (Nat.le_of_eq (by
            show (Stack.ofList t.frames.items).height = _
            rw [Stack.ofList_items, t.frames.height_eq])) rfl
        | error u =>
          obtain ⟨k, y, err, z, hrun, hframes, hstop, hcode, rfl⟩ := hfinishes
          show Exits b _ lower _ (.error u.code) z.objects
          rw [← hcode]
          exact .stopped hrun hframes hstop

/-- A call inside of the instance that does not fail at a limit ends as it does in the structured
semantics. -/
theorem callsInside_iff (hwired : Wired b) (hlinked : Linked b o) (hclosed : Closed b o.tables)
    (hf : b.func index = .ok f) (hargs : args.length = f.type.params.length)
    (ht : t.operands.slots.items = args.reverse ++ lower)
    (hlimits : ∀ code o', CallsInside b index lower ⟨o, t⟩ (.error code) o' →
      code ≠ Code.stackOverflow ∧ code ≠ Code.callStackExhausted) :
    CallsInside b index lower ⟨o, t⟩ r o' ↔ ∃ fuel, ending b fuel f args o = some (r, o') := by
  have hgoes (fuel : Nat) := (exits_or_advances hwired hlinked hclosed hf hargs ht fuel).resolve_left
    fun ⟨code, o', hfails, hcode⟩ => hcode.elim (hlimits code o' hfails).1 (hlimits code o' hfails).2
  obtain ⟨y, hcall, -⟩ := hgoes 0
  have hinside : CallsInside b index lower ⟨o, t⟩ r o' ↔ Exits b t.frames.height lower y r o' := by
    unfold CallsInside
    rw [hcall]
  rw [hinside]
  refine iff_exists_fuel (P := fun x => Exits b t.frames.height lower y x.1 x.2)
    (fun {fuel x} hx => ?_) (fun {x x'} hx hx' => ?_) (fun {x} hx => ?_) (r, o')
  · obtain ⟨y', hcall', hends⟩ := hgoes fuel
    cases hcall.symm.trans hcall'
    rw [hx] at hends
    exact hends
  · obtain ⟨hr, ho⟩ := hx.unique hx'
    exact Prod.ext hr ho
  · obtain ⟨n, hn⟩ := hx.exists_bound
    refine ⟨n, fun fuel hnone => ?_⟩
    obtain ⟨y', hcall', hends⟩ := hgoes fuel
    cases hcall.symm.trans hcall'
    rw [hnone] at hends
    obtain ⟨k, z, hle, hrun⟩ := hends
    exact Nat.le_trans hle (hn hrun)

/-- The steps of an activation keep its thread in order. -/
theorem Advances.steady {k : Nat} {e : Thread} {final : List ValueType} (hwired : Wired b)
    (h : Advances b e.frames.height k x y) (howns : Owns b x.objects.tables)
    (hlinked : Linked b x.objects) (hsteady : Steady b.module e final [] x.thread) :
    Steady b.module e final [] y.thread := by
  generalize hfloor : e.frames.height = floor at h
  induction h with
  | refl => exact hsteady
  | step hframes hstep _ ih =>
    subst hfloor
    rcases Safety.advance_cases hwired howns hlinked hsteady hframes with
      ⟨x', hstep', hlater, hsteady'⟩ | ⟨call, site, x', hstep', -⟩ | ⟨err, x', hstep', -⟩
    · cases hstep.symm.trans hstep'
      exact ih (hlater.tables ▸ howns) (hlinked.extends hlater.extends) hsteady'
    · cases hstep.symm.trans hstep'
    · cases hstep.symm.trans hstep'

/-- The results of a call with canonical arguments are canonical. -/
theorem CallsInside.ofTypes {slots : List UInt64}
    (h : CallsInside b index lower ⟨o, t⟩ (.ok slots) o') (hwired : Wired b)
    (howns : Owns b o.tables) (hlinked : Linked b o)
    (hf : b.func index = .ok f) (hargs : OfTypes f.type.params args.reverse)
    (ht : t.operands.slots.items = args.reverse ++ lower) : OfTypes f.type.results slots := by
  -- The function finds what lies below its arguments.
  let e : Thread := { t with operands := ⟨.ofList lower, t.operands.limit⟩ }
  have hslots : Shows e ([] ++ f.type.params) t.operands.slots.items :=
    ⟨args.reverse, by rw [ht, Stack.items_ofList], hargs⟩
  have hbegins : Safety.Begins none t.frames.items
      (e.operands.height + ([] : List ValueType).length) := fun _ _ hΓ => absurd rfl hΓ
  have hgoes : Safety.Goes b e f.type.results o (Execution.call b index ⟨o, t⟩) := by
    rw [t.eq_ofLists]
    exact Safety.goes_call rfl hwired hf hbegins .done hslots
  unfold CallsInside at h
  revert h hgoes
  cases Execution.call b index ⟨o, t⟩ with
  | error err y =>
    rintro ⟨hr, -⟩ -
    cases hr
  | ok call y =>
    cases call with
    | some call => exact fun h _ => h.elim
    | none =>
      rintro h ⟨hlater, hsteady⟩
      cases h with
      | returned hrun hclosed hitems =>
        have hsteady' := hrun.steady (e := e) hwired (hlater.tables ▸ howns)
          (hlinked.extends hlater.extends) hsteady
        obtain ⟨results, hresults, hz⟩ := hsteady'.closed hclosed
        rw [hz] at hitems
        have heq : results ++ lower = slots ++ lower := by
          rw [← hitems]
          show _ = (Stack.ofList (results ++ (Stack.ofList lower).items)).items
          rw [Stack.items_ofList, Stack.items_ofList]
        rwa [← List.append_cancel_right heq]

end Inside

/-! ### Calls of other instances -/

/-- The machine goes on until its call has returned, and one step further: then the activation that
waits for the call has the results on top of the slots `lower`, or it has failed; an error is known
by its code. -/
inductive CallsOutside (act : Activation) (lower : List UInt64) (m : Machine) :
    Except Nat (List UInt64) → Objects → Prop where
  | returned {m' : Machine} {result : Except Error (List Value)} {t : Thread} {slots : List UInt64}
      (hrun : Within m.waiting m m') (hwaiting : m'.waiting = m.waiting)
      (hfocus : m'.focus = .returned result) (hresumed : m'.step.focus = .wasm act)
      (ht : m'.step.store.thread? act.self = some t)
      (hslots : t.operands.slots.items = slots ++ lower) :
      CallsOutside act lower m (.ok slots) m'.step.store.objects
  | failed {m' : Machine} {result : Except Error (List Value)} {e : Error}
      (hrun : Within m.waiting m m') (hwaiting : m'.waiting = m.waiting)
      (hfocus : m'.focus = .returned result) (hfailed : m'.step.focus = .returned (.error e)) :
      CallsOutside act lower m (.error e.code) m'.step.store.objects

/-- The machine at a call that an activation makes outside of its instance, once the arguments are
taken from its stack. -/
def leaving (s : Store) (act : Activation) (call : Call) (site : Option Site)
    (waiting : List Waiting) : Machine :=
  ⟨s, .call (.instance act.self) call, .wasm act call.func.type site :: waiting⟩

section Outside

variable {s : Store} {act : Activation} {call : Call} {site : Option Site}
  {waiting : List Waiting} {values : List Value} {i : Instance}

theorem CallsOutside.unique {m : Machine} (h : CallsOutside act lower m r o)
    (h' : CallsOutside act lower m r' o') : r = r' ∧ o = o' := by
  have hend {m' : Machine} {result : Except Error (List Value)} (hwaiting : m'.waiting = m.waiting)
      (hfocus : m'.focus = .returned result) : ¬ m'.Open m.waiting :=
    fun hopen => hopen hwaiting result hfocus
  cases h with
  | returned hrun hwaiting hfocus hresumed ht hslots =>
    cases h' with
    | returned hrun' hwaiting' hfocus' _ ht' hslots' =>
      obtain rfl := hrun.unique hrun' (hend hwaiting hfocus) (hend hwaiting' hfocus')
      obtain rfl := Option.some.inj (ht.symm.trans ht')
      have heq := List.append_cancel_right (hslots.symm.trans hslots')
      exact ⟨congrArg Except.ok heq, rfl⟩
    | failed hrun' hwaiting' hfocus' hfailed =>
      obtain rfl := hrun.unique hrun' (hend hwaiting hfocus) (hend hwaiting' hfocus')
      cases hresumed.symm.trans hfailed
  | failed hrun hwaiting hfocus hfailed =>
    cases h' with
    | returned hrun' hwaiting' hfocus' hresumed =>
      obtain rfl := hrun.unique hrun' (hend hwaiting hfocus) (hend hwaiting' hfocus')
      cases hresumed.symm.trans hfailed
    | failed hrun' hwaiting' hfocus' hfailed' =>
      obtain rfl := hrun.unique hrun' (hend hwaiting hfocus) (hend hwaiting' hfocus')
      cases hfailed.symm.trans hfailed'
      exact ⟨rfl, rfl⟩

theorem open_leaving (s : Store) (act : Activation) (call : Call) (site : Option Site)
    (waiting waiting' : List Waiting) :
    Machine.Open waiting' (leaving s act call site waiting) :=
  fun _ _ hfocus => by cases hfocus

/-- The call itself has ended before the activation goes on. -/
theorem CallsOutside.ends (h : CallsOutside act lower (leaving s act call site waiting) r o) :
    ∃ result o', Ends (.wasm act call.func.type site :: waiting)
      (Machine.callRef s (.instance act.self) call (.wasm act call.func.type site :: waiting))
      result o' := by
  have hends {m' : Machine} {result : Except Error (List Value)}
      (hrun : Within (leaving s act call site waiting).waiting (leaving s act call site waiting) m')
      (hwaiting : m'.waiting = (leaving s act call site waiting).waiting)
      (hfocus : m'.focus = .returned result) : ∃ result o',
      Ends (leaving s act call site waiting).waiting (leaving s act call site waiting).step
        result o' := by
    rcases hrun.head with rfl | ⟨-, hrest⟩
    · cases hfocus
    · obtain ⟨s', focus, waiting'⟩ := m'
      obtain rfl : focus = .returned result := hfocus
      obtain rfl : waiting' = _ := hwaiting
      exact ⟨result, s'.objects, s', hrest, rfl⟩
  cases h with
  | returned hrun hwaiting hfocus => exact hends hrun hwaiting hfocus
  | failed hrun hwaiting hfocus => exact hends hrun hwaiting hfocus

/-- A call that fails has the activation fail with the same code. -/
theorem callsOutside_of_error {e : Error} (lower : List UInt64)
    (h : Ends (.wasm act call.func.type site :: waiting)
      (Machine.callRef s (.instance act.self) call (.wasm act call.func.type site :: waiting))
      (.error e) o) :
    CallsOutside act lower (leaving s act call site waiting) (.error e.code) o := by
  obtain ⟨s', hrun, rfl⟩ := h
  have hrun' : Within (leaving s act call site waiting).waiting (leaving s act call site waiting)
    ⟨s', .returned (.error e), .wasm act call.func.type site :: waiting⟩ :=
    .cons (open_leaving _ _ _ _ _ _) hrun
  have hobjects : (act.release (act.undo s')).objects = s'.objects := objects_release ..
  rw [← hobjects]
  cases site with
  | none => exact .failed hrun' rfl rfl rfl
  | some site => exact .failed (e := e.at site) hrun' rfl rfl rfl

/-- When a call of another instance has ended, all threads are as they were. -/
theorem thread?_of_ends {result : Except Error (List Value)} {s' : Store} (hsound : Safety.Sound s)
    (hgenuine : call.func.Genuine s)
    (hrun : Within (.wasm act call.func.type site :: waiting)
      (Machine.callRef s (.instance act.self) call (.wasm act call.func.type site :: waiting))
      ⟨s', .returned result, .wasm act call.func.type site :: waiting⟩) :
    s'.thread? = s.thread? := by
  have hclean : Safety.Clean (.wasm act call.func.type site :: waiting) s.thread?
      (Machine.callRef s (.instance act.self) call (.wasm act call.func.type site :: waiting)) :=
    Safety.clean_callRef hsound trivial hgenuine .refl
  exact (hrun.healthy hclean.toHealthy).thread?_eq rfl rfl

/-- A call that returns values of the types of the function has the activation go on with them, if
they fit on its stack. -/
theorem callsOutside_of_ok (hsound : Safety.Sound s) (hgenuine : call.func.Genuine s)
    (hi : s.instance? act.self = some i)
    (hheight : i.thread.operands.height ≤ i.thread.operands.limit)
    (hvalues : values.map Value.type = call.func.type.results)
    (h : Ends (.wasm act call.func.type site :: waiting)
      (Machine.callRef s (.instance act.self) call (.wasm act call.func.type site :: waiting))
      (.ok values) o) :
    CallsOutside act i.thread.operands.slots.items (leaving s act call site waiting)
        (.ok (values.map Value.toSlot).reverse) o ∨
      ∃ o', CallsOutside act i.thread.operands.slots.items (leaving s act call site waiting)
        (.error Code.stackOverflow) o' := by
  obtain ⟨s', hrun, rfl⟩ := h
  have hrun' : Within (leaving s act call site waiting).waiting (leaving s act call site waiting)
    ⟨s', .returned (.ok values), .wasm act call.func.type site :: waiting⟩ :=
    .cons (open_leaving _ _ _ _ _ _) hrun
  have hsame := congrFun (thread?_of_ends hsound hgenuine hrun) act.self
  rw [Store.thread?, Store.thread?, hi] at hsame
  obtain ⟨i', hi', hthread⟩ := Option.map_eq_some_iff.mp hsame
  replace hthread : i'.thread = i.thread := hthread
  have hstep : Machine.step ⟨s', .returned (.ok values), .wasm act call.func.type site :: waiting⟩ =
    Machine.resumeWasm s' act call.func.type site waiting (.ok values) := rfl
  have hcheck := Safety.checkResults_eq_ok_iff.mpr hvalues
  rw [← hthread] at hheight ⊢
  by_cases hfits : i'.thread.operands.height + values.length ≤ i'.thread.operands.limit
  · have hresumed := hstep.trans (Safety.resumeWasm_of_le hi' hcheck hfits)
    have hsettled := Safety.thread?_settled hi' ⟨s'.objects, i'.thread.pushed values⟩
    refine .inl ?_
    have hreturns := CallsOutside.returned hrun' rfl rfl (by rw [hresumed])
      (by rw [hresumed, hsettled, Threads.put_apply]) (Stack.items_ofList _)
    rw [hresumed] at hreturns
    exact hreturns
  · obtain ⟨e, hfailed, hcode⟩ := @Safety.resumeWasm_of_lt s' act call.func.type site waiting values
      i' hi' hcheck hheight (Nat.lt_of_not_le hfits)
    rw [← hcode]
    exact .inr ⟨_, .failed hrun' rfl rfl (hstep ▸ hfailed)⟩

theorem genuine_owned {callee : Address} {f : Func} (hb : s.bindings? callee = some b)
    (hf : b.func index = .ok f) : FuncRef.Genuine s (.owned f.type callee index) := by
  obtain ⟨j, hj, -⟩ := Safety.exists_instance hb
  refine ⟨Safety.lt_size hj, fun hb' => ?_⟩
  cases hb.symm.trans hb'
  exact ⟨f, hf, rfl⟩

/-- A call of a function of an idle instance enters it by the index of the function. -/
theorem callRef_owned {callee : Address} {type : FuncType} (hidle : s.isBusy callee = false)
    (hfunc : call.func = .owned type callee index) (caller : Caller) (waiting : List Waiting) :
    Machine.callRef s caller call waiting =
      Machine.invokeIndex s callee true index call.args waiting := by
  unfold Machine.callRef
  rw [hfunc]
  dsimp only
  rw [hidle, if_neg Bool.false_ne_true]

/-- Calling a function with values of its parameter types. -/
theorem invoke_eq {f : Func} {fuel : Nat} (hf : b.func index = .ok f)
    (hargs : values.map Value.type = f.type.params) : invoke fuel b index values o =
      (function (body b fuel) f (values.map Value.toSlot) o).map fun
        | (.ok slots, o) =>
          (.ok ((f.type.results.zip slots.reverse).map fun (t, slot) => Value.ofSlot t slot), o)
        | (.error t, o) => (.error t.error, o) := by
  have hcheck := Safety.checkArgs_eq_ok_iff.mpr hargs
  unfold invoke
  rw [hf]
  dsimp only
  revert hcheck
  cases f.type.checkArgs (values.map Value.type) with
  | error e => exact fun h => nomatch h
  | ok _ => exact fun _ => rfl

/-- A call of a function of another instance, which is idle and can call its own functions only,
ends as it does in the structured semantics, unless it fails at a limit. -/
theorem callsOutside_iff {callee : Address} {f : Func} (hsound : Safety.Sound s)
    (hi : s.instance? act.self = some i)
    (hheight : i.thread.operands.height ≤ i.thread.operands.limit)
    (hb : s.bindings? callee = some b) (hidle : s.isBusy callee = false)
    (hclosed : Closed b s.objects.tables) (hf : b.func index = .ok f)
    (hfunc : call.func = .owned f.type callee index)
    (hargs : call.args.map Value.type = f.type.params)
    (htyped : ∀ fuel slots o', ending b fuel f (call.args.map Value.toSlot) s.objects =
      some (.ok slots, o') → OfTypes f.type.results slots)
    (hlimits : ∀ code o', CallsOutside act i.thread.operands.slots.items
      (leaving s act call site waiting) (.error code) o' →
        code ≠ Code.stackOverflow ∧ code ≠ Code.callStackExhausted) :
    CallsOutside act i.thread.operands.slots.items (leaving s act call site waiting) r o ↔
      ∃ fuel, ending b fuel f (call.args.map Value.toSlot) s.objects = some (r, o) := by
  have htype : call.func.type = f.type := by
    rw [hfunc]
    rfl
  have hgenuine : call.func.Genuine s := hfunc ▸ genuine_owned hb hf
  have hcall (waiting' : List Waiting) :=
    callRef_owned hidle hfunc (.instance act.self) waiting'
  -- An error at a limit would come out of the caller with the same code.
  have hmatches (fuel : Nat) := (matches_invoke true index call.args
    (.wasm act call.func.type site :: waiting) hsound hb hclosed fuel).resolve_left (by
      rintro ⟨e, o', hends, hcode⟩
      rw [← hcall] at hends
      obtain ⟨hstack, hcalls⟩ := hlimits _ _ (callsOutside_of_error _ hends)
      exact hcode.elim hstack hcalls)
  refine iff_exists_fuel (P := fun x => CallsOutside act i.thread.operands.slots.items
    (leaving s act call site waiting) x.1 x.2)
    (fun {fuel x} hx => ?_) (fun {x x'} hx hx' => ?_) (fun {x} hx => ?_) (r, o)
  · have htyped := htyped fuel
    have hgoes := hmatches fuel
    rw [invoke_eq hf hargs, ← hcall] at hgoes
    unfold ending at hx htyped
    revert hx htyped hgoes
    cases function (body b fuel) f (call.args.map Value.toSlot) s.objects with
    | none => exact fun hx => nomatch hx
    | some outcome =>
      obtain ⟨result, o'⟩ := outcome
      intro hx htyped hgoes
      cases result with
      | ok slots =>
        cases hx
        have hslots := htyped slots o' rfl
        have htypes := hslots.map_type.trans (congrArg FuncType.results htype).symm
        rcases callsOutside_of_ok hsound hgenuine hi hheight htypes hgoes with
          hreturns | ⟨o'', hfails⟩
        · rw [hslots.map_toSlot, List.reverse_reverse] at hreturns
          exact hreturns
        · exact absurd rfl (hlimits _ _ hfails).1
      | error t =>
        cases hx
        obtain ⟨e, hends, hcode⟩ := hgoes
        have hfails := callsOutside_of_error i.thread.operands.slots.items hends
        rw [hcode] at hfails
        exact hfails
  · obtain ⟨hr, ho⟩ := hx.unique hx'
    exact Prod.ext hr ho
  · obtain ⟨result, o', hends⟩ := hx.ends
    rw [hcall] at hends
    obtain ⟨n, hn⟩ := hends.exists_bound
    refine ⟨n, fun fuel hnone => hn ?_⟩
    have hgoes := hmatches fuel
    rw [invoke_eq hf hargs, Option.map_eq_none_iff.mp hnone] at hgoes
    exact hgoes

end Outside

/-! ### Both ways -/

/-- Arguments of the parameter types leave an instance as values that give the same slots back. -/
theorem exists_leave {ref : FuncRef} {t : Thread} {args above : List UInt64} (o : Objects)
    (hargs : OfTypes ref.type.params args) (ht : t.operands.slots.items = args ++ above)
    (hheight : t.operands.height ≤ t.operands.limit) :
    ∃ call x, Execution.leave ref ⟨o, t⟩ = .ok call x ∧ call.func = ref ∧
      call.args.map Value.type = ref.type.params ∧ call.args.map Value.toSlot = args.reverse ∧
      x.objects = o ∧ x.thread.operands.slots.items = above ∧
      x.thread.operands.height ≤ x.thread.operands.limit := by
  have hlength := hargs.length_eq
  have hleave := @Execution.leave_ofLists o t.operands.slots.items t.operands.limit t.frames.items
    t.localBase t.callDepth ref (by rw [ht, List.length_append]; omega)
  rw [← t.eq_ofLists, ht, ← hlength, List.take_left, List.drop_left] at hleave
  refine ⟨_, _, hleave, rfl, hargs.map_type, hargs.map_toSlot, rfl, Stack.items_ofList above, ?_⟩
  have hle : t.operands.slots.items.length ≤ t.operands.limit := by
    rw [← t.operands.height_eq]
    exact hheight
  rw [ht, List.length_append] at hle
  show (Stack.ofList above).height ≤ t.operands.limit
  rw [Stack.height_eq, Stack.items_ofList]
  omega

/-- In a machine that can be reached every slot is canonical for its static type.  So when an idle
instance that imports no functions, and whose table holds only its own, is called with slots of the
parameter types, it makes no difference whether another instance calls it, with these slots on top
of a stack of its own, or it is called inside, with these slots on top of its stack: the results on
top of the stack are the same slots, an error has the same code, and the objects are the same
afterwards, unless one of the calls fails at a limit. -/
theorem call_paths_agree {known : List FuncRef} {m : Machine} (h : Reachable known m) :
    (∀ {a : Address} {i : Instance}, m.store.instance? a = some i →
      AllCanonical i.bindings.module i.thread) ∧
    ∀ {callee : Address} {b : Bindings} {index : UInt32} {ref : FuncRef} {act : Activation}
      {caller : Instance} {outside inside : Thread} {args above below : List UInt64}
      (site : Option Site) (waiting : List Waiting),
      m.store.bindings? callee = some b → m.store.isBusy callee = false →
      b.module.importCount .func = 0 →
      (∀ f, Holds b m.store.objects f → ∃ x, b.ownIndex? f = some x) →
      b.funcRef? index = some ref →
      m.store.instance? act.self = some caller → act.self ≠ callee →
      OfTypes ref.type.params args →
      outside.operands.slots.items = args ++ above →
      outside.operands.height ≤ outside.operands.limit →
      inside.operands.slots.items = args ++ below →
      ∃ call x, Execution.leave ref ⟨m.store.objects, outside⟩ = .ok call x ∧
        ((∀ code o, CallsOutside act above
            (leaving (settled m.store act.self caller x) act call site waiting) (.error code) o →
          code ≠ Code.stackOverflow ∧ code ≠ Code.callStackExhausted) →
        (∀ code o, CallsInside b index below ⟨m.store.objects, inside⟩ (.error code) o →
          code ≠ Code.stackOverflow ∧ code ≠ Code.callStackExhausted) →
        ∀ r o, CallsOutside act above
            (leaving (settled m.store act.self caller x) act call site waiting) r o ↔
          CallsInside b index below ⟨m.store.objects, inside⟩ r o) := by
  refine ⟨fun hi => h.regular.allCanonical hi, ?_⟩
  intro callee b index ref act caller outside inside args above below site waiting hb hidle himports
    htable href hcaller hother hargs houtside hheight hinside
  obtain ⟨⟨_, hsound, _⟩, -⟩ := h.orderly
  have hbound := hsound.instances hb
  have hclosed := closed_of_sound hsound hb himports htable
  obtain ⟨f, hf, hfref⟩ : ∃ f, b.func index = .ok f ∧ ref = .owned f.type callee index := by
    obtain ⟨f, hf, rfl⟩ := Option.map_eq_some_iff.mp href
    have hx : b.func index = .ok f := by rw [Bindings.func, hf]
    obtain ⟨sig, localCount, e, rfl⟩ := hclosed.defined hx
    refine ⟨_, hx, ?_⟩
    rw [← hbound.self]
    rfl
  obtain ⟨call, ⟨o, t⟩, hleave, hfunc, htypes, hslots, hobjects, rfl, hroom⟩ :=
    exists_leave m.store.objects hargs houtside hheight
  obtain rfl : o = m.store.objects := hobjects
  refine ⟨call, _, hleave, fun hlimits hlimits' r o => ?_⟩
  have hparams : ref.type = f.type := by
    rw [hfref]
    rfl
  rw [hparams] at hargs htypes
  have hlength : (call.args.map Value.toSlot).length = f.type.params.length := by
    rw [hslots, List.length_reverse, hargs.length_eq]
  rw [← List.reverse_reverse args, ← hslots] at hargs hinside
  -- Both calls do what the function does in the structured semantics.
  have hiff {r : Except Nat (List UInt64)} {o : Objects} :=
    @callsInside_iff b index m.store.objects o r below f _ inside hbound.wired hbound.linked hclosed
      hf hlength hinside hlimits'
  have hlater := Safety.later_settled (x := ⟨m.store.objects, t⟩) hcaller (Objects.later_refl _)
  have hidle' : (settled m.store act.self caller ⟨m.store.objects, t⟩).isBusy callee = false := by
    unfold Store.isBusy
    rw [Safety.instance?_settled hcaller, if_neg hother.symm]
    exact hidle
  have htyped (fuel : Nat) (slots : List UInt64) (o' : Objects)
      (hending : ending b fuel f (call.args.map Value.toSlot) m.store.objects =
        some (.ok slots, o')) : OfTypes f.type.results slots :=
    (hiff.mpr ⟨fuel, hending⟩).ofTypes hbound.wired (hsound.owns hb) hbound.linked hf hargs hinside
  exact (callsOutside_iff (hsound.later hlater) (instance?_settled_self hcaller _) hroom
    ((hlater.bindings callee).trans hb) hidle' hclosed hf (hfunc.trans hfref) htypes htyped
    hlimits).trans hiff.symm

/-! ### A division, called in both ways -/

open Safety (inverseInput inverseBody inverseModule inverseStore)

/-- What the instance at an address is bound to. -/
def inverseBindings (a : Address) : Bindings :=
  ⟨a, inverseModule, {}, #[.defined ⟨[.i32], [.i32]⟩ 0 inverseBody], #[], none, none⟩

/-- Two instances of the module, in which nothing runs. -/
def inverseStores : Store :=
  { inverseStore with
    instances := inverseStore.instances.push (some ⟨inverseBindings 1, .idle {}, false⟩) }

/-- An activation of the second instance. -/
def inverseCaller : Activation :=
  ⟨1, [], .idle {}, true⟩

/-- The second instance calls the function of the first one with 1, above a 9, after a number of
steps. -/
def inverseOutside : Nat → Machine
  | 0 => leaving (settled inverseStores 1 ⟨inverseBindings 1, .idle {}, false⟩
      ⟨{}, (Thread.idle {}).pushed [.i32 9]⟩) inverseCaller
      ⟨.owned ⟨[.i32], [.i32]⟩ 0 0, [.i32 1]⟩ none []
  | n + 1 => (inverseOutside n).step

theorem reachable_inverseStores : Reachable [] ⟨inverseStores, .returned (.ok []), []⟩ := by
  have hdecode : Binary.decode inverseInput = .ok inverseModule := rfl
  have hvalid : Validation.module inverseModule = .ok () := rfl
  have himports : Instantiate.imports inverseStore [] ⟨1, inverseModule, {}, #[], #[], none, none⟩
    [] = .ok ⟨1, inverseModule, {}, #[], #[], none, none⟩ := rfl
  have hexternals {name : String} {p : Provider} (h : List.lookup name ([] : Externals) = some p) :
      p.Held [] := nomatch h
  exact .act Safety.reachable_inverse (.link hdecode hvalid hexternals himports rfl)

theorem within_inverseOutside (n : Nat) (hn : n ≤ 6) :
    Within (inverseOutside 0).waiting (inverseOutside 0) (inverseOutside n) := by
  induction n with
  | zero => exact .refl
  | succ n ih =>
    refine .step (ih (by omega)) fun _ r h => ?_
    rcases n with _ | _ | _ | _ | _ | _ | n
    · cases h
    · cases h
    · cases h
    · cases h
    · cases h
    · cases h
    · omega

theorem inverse_outside : CallsOutside inverseCaller [9] (inverseOutside 0) (.ok [1]) {} := by
  obtain ⟨t, ht, hslots⟩ : ∃ t, (inverseOutside 6).step.store.thread? inverseCaller.self = some t ∧
    t.operands.slots.items = [1] ++ [9] := ⟨_, rfl, rfl⟩
  exact .returned (within_inverseOutside 6 (Nat.le_refl 6)) rfl rfl rfl ht hslots

theorem inverse_inside : CallsInside (inverseBindings 0) 0 []
    ⟨{}, (Thread.idle {}).pushed [.i32 1]⟩ (.ok [1]) {} := by
  have hrun : ∃ y z, Execution.call (inverseBindings 0) 0
      ⟨{}, (Thread.idle {}).pushed [.i32 1]⟩ = .ok none y ∧ Advances (inverseBindings 0) 0 4 y z ∧
      z.thread.frames.height ≤ 0 ∧ z.thread.operands.slots.items = [1] ++ [] ∧ z.objects = {} :=
    ⟨_, _, rfl, .step (by decide) rfl (.step (by decide) rfl (.step (by decide) rfl
      (.single (by decide) rfl))), by decide, rfl, rfl⟩
  obtain ⟨y, z, hcall, hadvances, hclosed, hslots, hobjects⟩ := hrun
  unfold CallsInside
  rw [hcall, ← hobjects]
  exact .returned hadvances hclosed hslots

/-- One divided by one, called by another instance and inside. -/
theorem inverse_either_way :
    CallsOutside inverseCaller [9] (inverseOutside 0) (.ok [1]) {} ∧
    CallsInside (inverseBindings 0) 0 [] ⟨{}, (Thread.idle {}).pushed [.i32 1]⟩ (.ok [1]) {} := by
  have hargs : OfTypes [.i32] [1] := ofTypes_map_toSlot [.i32 1]
  have hleave : Execution.leave (.owned ⟨[.i32], [.i32]⟩ 0 0)
      ⟨{}, (Thread.idle {}).pushed [.i32 9, .i32 1]⟩ =
    .ok ⟨.owned ⟨[.i32], [.i32]⟩ 0 0, [.i32 1]⟩ ⟨{}, (Thread.idle {}).pushed [.i32 9]⟩ := rfl
  obtain ⟨-, hcalls⟩ := call_paths_agree reachable_inverseStores
  obtain ⟨call, x, hleave', hagree⟩ := @hcalls 0 _ 0 _ inverseCaller _
    ((Thread.idle {}).pushed [.i32 9, .i32 1]) ((Thread.idle {}).pushed [.i32 1]) [1] [9] [] none []
    rfl rfl rfl (fun f ⟨_, _, _, htable, _⟩ => nomatch htable) rfl rfl (by decide) hargs rfl
    (by decide) rfl
  cases hleave.symm.trans hleave'
  have hboth := hagree (fun code o hfails => nomatch (hfails.unique inverse_outside).1)
    (fun code o hfails => nomatch (hfails.unique inverse_inside).1)
  exact ⟨inverse_outside, (hboth (.ok [1]) {}).mp inverse_outside⟩

end Wasm.Structured
