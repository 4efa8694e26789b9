import Wasm.Proofs.Safety.Stores

/-!
# Machines in order

A machine is a stack of calls into instances and into host functions.  `Nested` says that every call
that waits is in order on the thread that it will find when the calls above it have returned, and
what the threads are when all of them have.  A step keeps this, and the only errors that it raises
are not internal ones; an error that a host function returns is not raised but handed on.
-/

namespace Wasm.Safety

open Structured (Wired)

/-- An activation is in order on the given threads, with values of the types `pending` on their
way. -/
def Active (s : Store) (τ : Threads) (act : Activation) (pending : List ValueType) : Prop :=
  ∃ b t, s.bindings? act.self = some b ∧ τ act.self = some t ∧
    Steady b.module act.entry act.results pending t

/-- What waits above `below` is in order, and the threads are `outer` when all of it has
returned. -/
inductive Nested (s : Store) (below : List Waiting) (outer : Threads) :
    Threads → List Waiting → Prop where
  | refl : Nested s below outer outer below
  | host {τ : Threads} {waiting : List Waiting} {caller : Caller} {type : FuncType}
      {next : Except Error (List Value) → Proc} (hcaller : caller.Genuine s)
      (h : Nested s below outer τ waiting) :
      Nested s below outer τ (.host caller type next :: waiting)
  | wasm {τ : Threads} {waiting : List Waiting} {act : Activation} {type : FuncType}
      {site : Option Site} (hact : Active s τ act type.results)
      (h : Nested s below outer (τ.put act.self act.entry) waiting) :
      Nested s below outer τ (.wasm act type site :: waiting)

/-- What is to be done is in order. -/
def InOrder (s : Store) (below : List Waiting) (outer : Threads) (waiting : List Waiting) :
    Focus → Prop
  | .wasm act => Active s s.thread? act [] ∧
    Nested s below outer (s.thread?.put act.self act.entry) waiting
  | .host caller _ _ => caller.Genuine s ∧ Nested s below outer s.thread? waiting
  | .call caller call => caller.Genuine s ∧ call.func.Genuine s ∧
    Nested s below outer s.thread? waiting
  | .returned _ => Nested s below outer s.thread? waiting

/-- A machine in order, down to what waits `below`: when that goes on, the threads are `outer`. -/
structure Healthy (below : List Waiting) (outer : Threads) (m : Machine) : Prop where
  sound : Sound m.store
  focus : InOrder m.store below outer m.waiting m.focus

/-- A machine in order that has not just failed with an internal error. -/
structure Clean (below : List Waiting) (outer : Threads) (m : Machine) : Prop
    extends Healthy below outer m where
  error : ∀ {e : Error}, m.focus = .returned (.error e) → ¬ e.IsInternal

variable {s s' : Store} {below waiting : List Waiting} {outer τ : Threads} {act : Activation}
  {m : Machine} {caller : Caller} {type : FuncType}

theorem Active.stays {pending : List ValueType} (h : Active s τ act pending) (hstays : s.Stays s') :
    Active s' τ act pending := by
  obtain ⟨b, t, hb, ht, hsteady⟩ := h
  exact ⟨b, t, (hstays.bindings _).trans hb, ht, hsteady⟩

theorem Nested.stays (h : Nested s below outer τ waiting) (hstays : s.Stays s') :
    Nested s' below outer τ waiting := by
  induction h with
  | refl => exact .refl
  | host hcaller _ ih => exact .host (hcaller.keeps hstays.keeps) ih
  | wasm hact _ ih => exact .wasm (hact.stays hstays) ih

theorem Nested.later (h : Nested s below outer τ waiting) (hlater : Later s s') :
    Nested s' below outer τ waiting :=
  h.stays hlater.toStays

theorem Nested.length_le (h : Nested s below outer τ waiting) : below.length ≤ waiting.length := by
  induction h with
  | refl => exact Nat.le_refl _
  | host _ _ ih => exact Nat.le_succ_of_le ih
  | wasm _ _ ih => exact Nat.le_succ_of_le ih

/-- When nothing waits above `below`, the threads are as they were. -/
theorem Nested.eq_outer (h : Nested s below outer τ below) : τ = outer := by
  cases h with
  | refl => rfl
  | host _ h => exact absurd h.length_le (Nat.not_succ_le_self _)
  | wasm _ h => exact absurd h.length_le (Nat.not_succ_le_self _)

/-! ### Failures -/

theorem clean_returned {r : Except Error (List Value)} (hsound : Sound s)
    (hnested : Nested s below outer s.thread? waiting)
    (herror : ∀ {e : Error}, r = .error e → ¬ e.IsInternal) :
    Clean below outer ⟨s, .returned r, waiting⟩ :=
  ⟨⟨hsound, hnested⟩, fun h => by
    cases h
    exact herror rfl⟩

theorem clean_error {e : Error} (hsound : Sound s)
    (hnested : Nested s below outer s.thread? waiting) (he : ¬ e.IsInternal) :
    Clean below outer ⟨s, .returned (.error e), waiting⟩ :=
  clean_returned hsound hnested fun h => by
    cases h
    exact he

/-- A failed activation leaves a machine in order. -/
theorem healthy_fail {t : Thread} (e : Error) (hsound : Sound s)
    (ht : s.thread? act.self = some t) (habove : Above act.entry t)
    (hnested : Nested s below outer (s.thread?.put act.self act.entry) waiting) :
    Healthy below outer (Machine.fail s act e waiting) := by
  have hlater : Later s (act.release (act.undo s)) :=
    (later_undo s act).trans (later_release _ act)
  refine ⟨hsound.later hlater, ?_⟩
  show Nested _ below outer (act.release (act.undo s)).thread? waiting
  rw [thread?_release, thread?_undo ht habove]
  exact hnested.later hlater

theorem clean_fail {t : Thread} {e : Error} (hsound : Sound s)
    (ht : s.thread? act.self = some t) (habove : Above act.entry t)
    (hnested : Nested s below outer (s.thread?.put act.self act.entry) waiting)
    (he : ¬ e.IsInternal) : Clean below outer (Machine.fail s act e waiting) :=
  ⟨healthy_fail e hsound ht habove hnested, fun h => by
    cases h
    exact he⟩

/-! ### Host functions -/

/-- A host function that goes on. -/
theorem clean_host {proc : Proc} (hsound : Sound s) (hcaller : caller.Genuine s)
    (hnested : Nested s below outer s.thread? waiting) :
    Clean below outer ⟨s, .host caller type proc, waiting⟩ :=
  ⟨⟨hsound, hcaller, hnested⟩, fun h => nomatch h⟩

/-- A call that a host function sends. -/
theorem clean_send {call : Call} (hsound : Sound s) (hcaller : caller.Genuine s)
    (hf : call.func.Genuine s) (hnested : Nested s below outer s.thread? waiting) :
    Clean below outer ⟨s, .call caller call, waiting⟩ :=
  ⟨⟨hsound, hcaller, hf, hnested⟩, fun h => nomatch h⟩

/-! ### Activations -/

/-- A part of an activation that has come to nothing leaves a machine in order. -/
theorem clean_fail_settled {i : Instance} {x : Execution} {e : Error} (hsound : Sound s)
    (hi : s.instance? act.self = some i) (hlater : s.objects.Later x.objects)
    (habove : Above act.entry x.thread)
    (hnested : Nested s below outer (s.thread?.put act.self act.entry) waiting)
    (he : ¬ e.IsInternal) :
    Clean below outer (Machine.fail (settled s act.self i x) act e waiting) := by
  have hlater' := later_settled hi hlater
  have ht := thread?_settled hi x
  refine clean_fail (t := x.thread) (hsound.later hlater') ?_ habove ?_ he
  · rw [ht, Threads.put_apply]
  · rw [ht, Threads.put_put]
    exact hnested.later hlater'

/-- An activation that goes on. -/
theorem clean_active {i : Instance} {x : Execution} {b : Bindings} (hsound : Sound s)
    (hi : s.instance? act.self = some i) (hb : s.bindings? act.self = some b)
    (hlater : s.objects.Later x.objects)
    (hsteady : Steady b.module act.entry act.results [] x.thread)
    (hnested : Nested s below outer (s.thread?.put act.self act.entry) waiting) :
    Clean below outer ⟨settled s act.self i x, .wasm act, waiting⟩ := by
  have hlater' := later_settled hi hlater
  have ht := thread?_settled hi x
  refine ⟨⟨hsound.later hlater', ⟨b, x.thread, (hlater'.bindings _).trans hb, ?_, hsteady⟩, ?_⟩,
    fun h => nomatch h⟩
  · rw [ht, Threads.put_apply]
  · rw [ht, Threads.put_put]
    exact hnested.later hlater'

/-- An activation that waits for a function outside of its instance. -/
theorem clean_call {i : Instance} {x : Execution} {b : Bindings} {call : Call}
    (site : Option Site) (hsound : Sound s) (hi : s.instance? act.self = some i)
    (hb : s.bindings? act.self = some b) (hlater : s.objects.Later x.objects)
    (hsteady : Steady b.module act.entry act.results call.func.type.results x.thread)
    (hreaches : Reaches b x.objects call.func)
    (hnested : Nested s below outer (s.thread?.put act.self act.entry) waiting) :
    Clean below outer ⟨settled s act.self i x, .call (.instance act.self) call,
      .wasm act call.func.type site :: waiting⟩ := by
  have hlater' := later_settled hi hlater
  have ht := thread?_settled hi x
  have hsound' := hsound.later hlater'
  have hb' : (settled s act.self i x).bindings? act.self = some b :=
    (hlater'.bindings _).trans hb
  have hgenuine : call.func.Genuine (settled s act.self i x) := by
    rcases hreaches with ⟨y, hy⟩ | hholds
    · exact (hsound'.instances hb').imports hy
    · exact hsound'.genuine_of_holds rfl hholds
  refine ⟨⟨hsound', trivial, hgenuine, .wasm ⟨b, x.thread, hb', ?_, hsteady⟩ ?_⟩, fun h => nomatch h⟩
  · rw [ht, Threads.put_apply]
  · rw [ht, Threads.put_put]
    exact hnested.later hlater'

/-- A step of wasm code. -/
theorem clean_stepWasm (hsound : Sound s) (hact : Active s s.thread? act [])
    (hnested : Nested s below outer (s.thread?.put act.self act.entry) waiting) :
    Clean below outer (Machine.stepWasm s act waiting) := by
  obtain ⟨b, t, hb, ht, hsteady⟩ := hact
  obtain ⟨i, hi, rfl, ht'⟩ := exists_instance hb
  obtain rfl : i.thread = t := Option.some.inj (ht'.symm.trans ht)
  have hbound := hsound.instances hb
  have hfinished : act.isFinished s =
      decide (i.thread.frames.height ≤ act.entry.frames.height) := by
    rw [Activation.isFinished, hi]
  unfold Machine.stepWasm
  rw [hfinished]
  by_cases hframes : i.thread.frames.height ≤ act.entry.frames.height
  · rw [if_pos (decide_eq_true hframes), run_eq hi]
    obtain ⟨values, hfinish⟩ := finish_eq (o := s.objects) hsteady hframes
    rw [hfinish]
    have hlater : Later s (act.release (settled s act.self i ⟨s.objects, act.entry⟩)) :=
      (later_settled hi (Objects.later_refl _)).trans (later_release _ act)
    refine clean_returned (hsound.later hlater) ?_ fun h => nomatch h
    rw [thread?_release, thread?_settled hi]
    exact hnested.later hlater
  · rw [if_neg (by simpa using hframes), run_eq hi]
    rcases advance_cases hbound.wired (hsound.owns hb) hbound.linked hsteady (by omega) with
      ⟨x, hrun, hlater, hsteady'⟩ | ⟨call, site, x, hrun, hlater, hsteady', hreaches⟩ |
      ⟨err, x, hrun, hlater, herr, habove⟩
    · rw [hrun]
      exact clean_active hsound hi hb hlater hsteady' hnested
    · rw [hrun]
      exact clean_call (some site) hsound hi hb hlater hsteady' hreaches hnested
    · rw [hrun]
      exact clean_fail_settled hsound hi hlater habove hnested herr

/-! ### Calls -/

/-- Taking an instance changes neither bindings nor threads. -/
theorem taken_keeps {a : Address} {exclusive : Bool}
    (h : (if exclusive = true then s.modifyInstance a fun i => { i with busy := true } else s) = s') :
    Later s s' ∧ s'.thread? = s.thread? := by
  subst h
  split
  · exact ⟨later_modifyInstance s a fun _ => rfl, thread?_modifyInstance s a fun _ => rfl⟩
  · exact ⟨later_refl s, rfl⟩

/-- A call of a function of an instance, by its index. -/
theorem clean_invokeIndex {a : Address} {b : Bindings} {index : UInt32} {f : Func}
    (exclusive : Bool) (args : List Value) (hsound : Sound s) (hb : s.bindings? a = some b)
    (hf : b.func index = .ok f) (hnested : Nested s below outer s.thread? waiting) :
    Clean below outer (Machine.invokeIndex s a exclusive index args waiting) := by
  obtain ⟨i, hi, rfl, ht⟩ := exists_instance hb
  unfold Machine.invokeIndex
  rw [hi]
  dsimp only
  generalize htaken : (if exclusive = true then s.modifyInstance a fun i => { i with busy := true }
    else s) = s'
  obtain ⟨hlater, hthread⟩ := taken_keeps htaken
  have hb' := (hlater.bindings a).trans hb
  have hsound' := hsound.later hlater
  obtain ⟨i', hi', hbindings, ht'⟩ := exists_instance hb'
  have hthreads : i'.thread = i.thread :=
    Option.some.inj (ht'.symm.trans ((congrFun hthread a).trans ht))
  have hnested' : Nested s' below outer (s'.thread?.put a i.thread) waiting := by
    rw [hthread, Threads.put_eq_self ht]
    exact hnested.later hlater
  rw [hf]
  dsimp only
  cases hcheck : f.type.checkArgs (args.map Value.type) with
  | error e =>
    exact clean_fail hsound' (ht'.trans (congrArg some hthreads))
      ⟨List.suffix_refl _, List.suffix_refl _, rfl⟩ hnested' (not_isInternal_of_checkArgs hcheck)
  | ok _ =>
    have hgoes := goes_entry (o := s'.objects) (e := i'.thread)
      (hsound'.instances hb').wired hf (checkArgs_eq_ok_iff.mp hcheck)
    dsimp only
    rw [@run_eq s' _ ⟨a, f.type.results, i.thread, exclusive⟩ i' hi', hbindings]
    rw [hthreads] at hgoes ⊢
    revert hgoes
    cases Activation.enter index args i.bindings ⟨s'.objects, i.thread⟩ with
    | error e x =>
      rintro ⟨hlater', he, habove⟩
      exact clean_fail_settled hsound' hi' hlater' habove hnested' he
    | ok call x =>
      cases call with
      | none =>
        rintro ⟨hlater', hsteady⟩
        exact clean_active hsound' hi' hb' hlater' hsteady hnested'
      | some call =>
        rintro ⟨hlater', hsteady, hreaches⟩
        exact clean_call none hsound' hi' hb' hlater' hsteady hreaches hnested'

/-- A call of an export. -/
theorem clean_invokeExport (a : Address) (exclusive : Bool) (name : String) (args : List Value)
    (hsound : Sound s) (hnested : Nested s below outer s.thread? waiting) :
    Clean below outer (Machine.invokeExport s a exclusive name args waiting) := by
  unfold Machine.invokeExport
  cases hi : s.instance? a with
  | none =>
    exact clean_error hsound hnested
      (Error.not_isInternal .runtime Code.instanceUnavailable (by decide))
  | some i =>
    have hb : s.bindings? a = some i.bindings := by
      rw [Store.bindings?, hi]
      rfl
    dsimp only
    cases hindex : i.bindings.exportIndex .func name with
    | error e =>
      obtain ⟨message, rfl⟩ := Bindings.exportIndex_error hindex
      exact clean_error hsound hnested
        (Error.not_isInternal .runtime Code.exportNotFound (by decide))
    | ok index =>
      obtain ⟨f, hf⟩ := (hsound.instances hb).exports hindex
      exact clean_invokeIndex exclusive args hsound hb hf hnested

theorem clean_invokeHandle (a : Address) (name : String) (args : List Value)
    (hsound : Sound s) (hnested : Nested s below outer s.thread? waiting) :
    Clean below outer (Machine.invokeHandle s a name args waiting) := by
  unfold Machine.invokeHandle
  split
  · exact clean_error hsound hnested
      (Error.not_isInternal .runtime Code.instanceUnavailable (by decide))
  · exact clean_invokeExport a true name args hsound hnested

/-- A call of a function of the host's own modules. -/
theorem clean_invokeNative {m : NativeModule} (name : String) (args : List Value)
    (hsound : Sound s) (hm : m.Genuine s) (hnested : Nested s below outer s.thread? waiting) :
    Clean below outer (Machine.invokeNative s m name args waiting) := by
  unfold Machine.invokeNative
  cases hf : m.func name with
  | error e =>
    obtain ⟨message, rfl⟩ := NativeModule.func_error hf
    exact clean_error hsound hnested
      (Error.not_isInternal .runtime Code.exportNotFound (by decide))
  | ok f =>
    unfold NativeModule.func at hf
    split at hf
    · next hmember =>
      cases hf
      have hgenuine : f.Genuine s := hm hmember
      exact clean_send hsound hm hgenuine hnested
    · cases hf

theorem clean_callRef {call : Call} (hsound : Sound s) (hcaller : caller.Genuine s)
    (hf : call.func.Genuine s) (hnested : Nested s below outer s.thread? waiting) :
    Clean below outer (Machine.callRef s caller call waiting) := by
  obtain ⟨f, args⟩ := call
  cases f with
  | host type run =>
    unfold Machine.callRef
    dsimp only
    cases hcheck : type.checkArgs (args.map Value.type) with
    | error e => exact clean_error hsound hnested (not_isInternal_of_checkArgs hcheck)
    | ok _ => exact clean_host hsound hcaller hnested
  | owned type owner index =>
    show Clean below outer (ite _ _ _)
    split
    · exact clean_error hsound hnested
        (Error.not_isInternal .runtime Code.instanceUnavailable (by decide))
    · cases hi : s.instance? owner with
      | none =>
        unfold Machine.invokeIndex
        rw [hi]
        exact clean_error hsound hnested
          (Error.not_isInternal .runtime Code.instanceUnavailable (by decide))
      | some i =>
        have hb : s.bindings? owner = some i.bindings := by
          rw [Store.bindings?, hi]
          rfl
        obtain ⟨g, hg, -⟩ := hf.2 hb
        exact clean_invokeIndex true args hsound hb hg hnested

/-! ### Steps -/

/-- A step of a host function that does not fail on its own account. -/
theorem clean_stepHost {proc : Proc} (hsound : Sound s) (hcaller : caller.Genuine s)
    (hnested : Nested s below outer s.thread? waiting)
    (hproc : ∀ {e : Error}, proc ≠ .done (.error e)) :
    Clean below outer (Machine.stepHost s caller type waiting proc) := by
  cases proc with
  | done r =>
    cases r with
    | error e => exact absurd rfl hproc
    | ok values =>
      unfold Machine.stepHost
      dsimp only
      cases hcheck : type.checkResults (values.map Value.type) with
      | error e => exact clean_error hsound hnested (not_isInternal_of_checkResults hcheck)
      | ok _ => exact clean_returned hsound hnested fun h => nomatch h
  | ask request next =>
    have hserved : s.Served (·.Genuine s) (s.answer caller request).2 :=
      Store.served_answer caller request (hsound.genuine_funcAt hcaller)
    have hstays := Store.stays_of_instances hserved.instances
    have hthread : (s.answer caller request).2.thread? = s.thread? := by
      funext a
      rw [Store.thread?, Store.thread?, Store.instance?, Store.instance?, hserved.instances]
    refine clean_host (hsound.served hserved) (hcaller.keeps hstays.keeps) ?_
    show Nested _ below outer (s.answer caller request).2.thread? waiting
    rw [hthread]
    exact hnested.stays hstays
  | invoke target name args next =>
    have hnested' : Nested s below outer s.thread? (.host caller type next :: waiting) :=
      .host hcaller hnested
    cases target with
    | caller =>
      cases caller with
      | «instance» a => exact clean_invokeExport a false name args hsound hnested'
      | native m => exact clean_invokeNative name args hsound hcaller hnested'
    | handle h =>
      unfold Machine.stepHost
      dsimp only
      cases s.handle? h with
      | some a => exact clean_invokeHandle a name args hsound hnested'
      | none => exact clean_host hsound hcaller hnested
  | call source args otherwise next =>
    unfold Machine.stepHost
    dsimp only
    cases hf : s.funcAt caller source with
    | some f =>
      exact clean_send hsound hcaller (hsound.genuine_funcAt hcaller hf) (.host hcaller hnested)
    | none => exact clean_host hsound hcaller hnested

/-- Wasm code goes on with what a call has returned, or hands its failure on. -/
theorem resumeWasm_cases {site : Option Site} {r : Except Error (List Value)} (hsound : Sound s)
    (hact : Active s s.thread? act type.results)
    (hnested : Nested s below outer (s.thread?.put act.self act.entry) waiting) :
    Healthy below outer (Machine.resumeWasm s act type site waiting r) ∧
      ∀ {values : List Value}, r = .ok values →
        Clean below outer (Machine.resumeWasm s act type site waiting r) := by
  obtain ⟨b, t, hb, ht, hsteady⟩ := hact
  cases r with
  | error e => exact ⟨healthy_fail _ hsound ht hsteady.1 hnested, fun h => nomatch h⟩
  | ok values =>
    suffices h : Clean below outer (Machine.resumeWasm s act type site waiting (.ok values)) from
      ⟨h.toHealthy, fun _ => h⟩
    obtain ⟨i, hi, rfl, ht'⟩ := exists_instance hb
    obtain rfl : i.thread = t := Option.some.inj (ht'.symm.trans ht)
    unfold Machine.resumeWasm
    dsimp only
    rw [run_eq hi]
    rcases resume_cases (o := s.objects) values hsteady with
      ⟨t', hrun, hsteady'⟩ | ⟨err, hrun, herr⟩
    · rw [hrun]
      exact clean_active hsound hi hb (Objects.later_refl _) hsteady' hnested
    · rw [hrun]
      refine clean_fail_settled hsound hi (Objects.later_refl _) hsteady.1 hnested ?_
      cases site <;> exact herr

end Wasm.Safety

namespace Wasm

/-- A host function or a call has failed, and the failure is on its way to who waits for it. -/
def Focus.HasFailed : Focus → Prop
  | .host _ _ (.done (.error _)) | .returned (.error _) => True
  | _ => False

/-- The next step of a machine fails, and nothing has failed before it. -/
def Machine.Raises (m : Machine) (e : Error) : Prop :=
  m.step.focus = .returned (.error e) ∧ ¬ m.focus.HasFailed

end Wasm

namespace Wasm.Safety

variable {below : List Waiting} {outer : Threads} {m : Machine}

/-- A step of a machine in order, as long as it does not go on with what waits below. -/
theorem Healthy.step (h : Healthy below outer m)
    (hopen : m.waiting = below → ∀ r, m.focus ≠ .returned r) :
    Healthy below outer m.step ∧ ∀ {e : Error}, m.Raises e → ¬ e.IsInternal := by
  suffices hstep : Healthy below outer m.step ∧
      (¬ m.focus.HasFailed → Clean below outer m.step) from
    ⟨hstep.1, fun hraises => (hstep.2 hraises.2).error hraises.1⟩
  have hclean (hclean : Clean below outer m.step) : Healthy below outer m.step ∧
      (¬ m.focus.HasFailed → Clean below outer m.step) := ⟨hclean.toHealthy, fun _ => hclean⟩
  obtain ⟨s, focus, waiting⟩ := m
  obtain ⟨hsound, hfocus⟩ := h
  cases focus with
  | wasm act => exact hclean (clean_stepWasm hsound hfocus.1 hfocus.2)
  | call caller call => exact hclean (clean_callRef hsound hfocus.1 hfocus.2.1 hfocus.2.2)
  | host caller type proc =>
    obtain ⟨hcaller, hnested⟩ := hfocus
    by_cases hproc : ∃ e, proc = .done (.error e)
    · obtain ⟨e, rfl⟩ := hproc
      exact ⟨⟨hsound, hnested⟩, fun h => absurd trivial h⟩
    · exact hclean (clean_stepHost hsound hcaller hnested fun h => hproc ⟨_, h⟩)
  | returned r =>
    have hnested : Nested s below outer s.thread? waiting := hfocus
    generalize hτ : s.thread? = τ at hnested
    cases hnested with
    | refl => exact absurd rfl (hopen rfl r)
    | host hcaller hnested =>
      subst hτ
      exact hclean (clean_host hsound hcaller hnested)
    | wasm hact hnested =>
      subst hτ
      obtain ⟨hhealthy, hok⟩ := resumeWasm_cases hsound hact hnested
      refine ⟨hhealthy, fun h => ?_⟩
      cases r with
      | error e => exact absurd trivial h
      | ok values => exact hok rfl

end Wasm.Safety
