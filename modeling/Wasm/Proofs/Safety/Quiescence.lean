import Wasm.Proofs.Execution.Bounds
import Wasm.Proofs.Safety.Reachable

/-!
# Stores in which nothing runs

Whatever calls have returned or failed before, when none is running every thread is empty and no
instance is taken (`Reachable.resting`).  While calls run, every thread stays within the limits of
its instance, and an instance that is taken is taken by an activation that has not ended.
-/

namespace Wasm.Safety

variable {G : FuncRef → Prop} {s s' : Store} {m : Machine} {known : List FuncRef}
  {x y : Store × List Activation}

/-! ### Limits -/

/-- Threads are within the limits of their instances, and so were those that activations found. -/
structure Limited (x : Store × List Activation) : Prop where
  threads : ∀ {a : Address} {i : Instance}, x.1.instance? a = some i →
    i.thread.InBounds i.bindings.config
  entries : ∀ {act : Activation} {b : Bindings}, act ∈ x.2 → x.1.bindings? act.self = some b →
    act.entry.InBounds b.config

/-- A part of an execution stays within the limits. -/
theorem IsPart.inBounds {α : Type} {part : Bindings → Execution.Step α} (h : IsPart part)
    {b : Bindings} {e e' : Execution} (he : e.thread.InBounds b.config)
    (hrun : (∃ r, part b e = .ok r e') ∨ ∃ err, part b e = .error err e') :
    e'.thread.InBounds b.config := by
  have hbounded : Execution.Bounded b.config (part b) fun _ => True := by
    cases h with
    | enter index args => exact Activation.bounded_enter b index args
    | advance => exact Activation.bounded_advance b
    | resume type values => exact Activation.bounded_resume type values
    | finish types => exact Activation.bounded_finish types
  have hgoes := hbounded e he
  rcases hrun with ⟨r, hr⟩ | ⟨err, herr⟩
  · rw [hr] at hgoes
    exact hgoes.1
  · rw [herr] at hgoes
    exact hgoes

/-- A change of one instance that keeps its bindings and its limits. -/
theorem Limited.modifyInstance {acts : List Activation} (h : Limited (s, acts)) (a : Address)
    {g : Instance → Instance} (hbindings : ∀ i, (g i).bindings = i.bindings)
    (hthread : ∀ i, s.instance? a = some i → (g i).thread.InBounds i.bindings.config) :
    Limited (s.modifyInstance a g, acts) := by
  refine ⟨fun {a' i} hi => ?_, fun {act b} hact hb => ?_⟩
  · rw [instance?_modifyInstance] at hi
    split at hi
    · next ha =>
      obtain ⟨i', hi', rfl⟩ := Option.map_eq_some_iff.mp hi
      rw [hbindings]
      exact hthread i' (ha ▸ hi')
    · exact h.threads hi
  · rw [(later_modifyInstance s a hbindings).bindings] at hb
    exact h.entries hact hb

theorem Limited.move (h : Limited x) (hmove : Move G x y) : Limited y := by
  cases hmove with
  | @take s acts a i results exclusive hi =>
    have htaken : Limited (s, ⟨a, results, i.thread, exclusive⟩ :: acts) := by
      refine ⟨h.threads, fun {act b} hact hb => ?_⟩
      rcases List.mem_cons.mp hact with rfl | hact
      · obtain ⟨i', hi', rfl, -⟩ := exists_instance hb
        cases hi.symm.trans hi'
        exact h.threads hi
      · exact h.entries hact hb
    split
    · exact htaken.modifyInstance (g := fun i => { i with busy := true }) a (fun _ => rfl)
        fun _ hi => h.threads hi
    · exact htaken
  | @run α part s acts act i e hpart hi hrun =>
    refine ⟨fun {a i'} hi' => ?_, fun hact hb => ?_⟩
    · rw [instance?_settled hi] at hi'
      split at hi'
      · cases hi'
        have hbounds : i.thread.InBounds i.bindings.config := h.threads hi
        exact hpart.inBounds (e := ⟨s.objects, i.thread⟩) hbounds hrun
      · exact h.threads hi'
    · rw [bindings?_settled hi] at hb
      exact h.entries hact hb
  | undo s act acts =>
    refine h.modifyInstance (g := fun i => { i with thread := i.thread.cutBack act.entry })
      act.self (fun _ => rfl) fun i hi => (h.threads hi).cutBack ?_
    exact h.entries (List.mem_cons_self ..) (by rw [Store.bindings?, hi]; rfl)
  | release s act acts =>
    have hrest : Limited (s, acts) :=
      ⟨h.threads, fun hact hb => h.entries (List.mem_cons_of_mem _ hact) hb⟩
    unfold Activation.release
    split
    · exact hrest.modifyInstance (g := fun i => { i with busy := false }) _ (fun _ => rfl)
        fun _ hi => h.threads hi
    · exact hrest
  | serve acts hserved =>
    refine ⟨fun hi => ?_, fun hact hb => ?_⟩
    · rw [Store.instance?, hserved.instances] at hi
      exact h.threads hi
    · rw [(Store.stays_of_instances hserved.instances).bindings] at hb
      exact h.entries hact hb

/-! ### Taken instances -/

/-- An instance is taken by an activation that has not ended. -/
def Occupied (x : Store × List Activation) : Prop :=
  ∀ (a : Address) (i : Instance), x.1.instance? a = some i → i.busy = true →
    ∃ act ∈ x.2, act.self = a ∧ act.exclusive = true

theorem Occupied.move (h : Occupied x) (hmove : Move G x y) : Occupied y := by
  cases hmove with
  | @take s acts a i results exclusive hi =>
    intro a' i' hi' hbusy
    have hold (hi' : s.instance? a' = some i') : ∃ act ∈ ⟨a, results, i.thread, exclusive⟩ :: acts,
        act.self = a' ∧ act.exclusive = true := by
      obtain ⟨act, hact, hself⟩ := h _ _ hi' hbusy
      exact ⟨act, List.mem_cons_of_mem _ hact, hself⟩
    dsimp only at hi'
    split at hi'
    · next hexclusive =>
      rw [instance?_modifyInstance] at hi'
      split at hi'
      -- What has just become busy is held by the activation that has just begun.
      · next ha => exact ⟨_, List.mem_cons_self .., ha.symm, hexclusive⟩
      · exact hold hi'
    · exact hold hi'
  | @run _ _ _ _ _ i _ _ hi _ =>
    intro a' i' hi' hbusy
    rw [instance?_settled hi] at hi'
    split at hi'
    · next ha =>
      cases hi'
      exact h _ i (ha ▸ hi) hbusy
    · exact h _ _ hi' hbusy
  | undo s act acts =>
    intro a' i' hi' hbusy
    rw [Activation.undo, instance?_modifyInstance] at hi'
    split at hi'
    · obtain ⟨i, hi, rfl⟩ := Option.map_eq_some_iff.mp hi'
      exact h _ _ hi hbusy
    · exact h _ _ hi' hbusy
  | release s act acts =>
    intro a' i' hi' hbusy
    -- The activation that ends holds nothing, or it sets its instance free.
    have hrest (hi' : s.instance? a' = some i') (hne : act.self = a' → act.exclusive ≠ true) :
        ∃ act ∈ acts, act.self = a' ∧ act.exclusive = true := by
      obtain ⟨act', hact', hself, hexclusive⟩ := h _ _ hi' hbusy
      rcases List.mem_cons.mp hact' with rfl | hact'
      · exact absurd hexclusive (hne hself)
      · exact ⟨act', hact', hself, hexclusive⟩
    dsimp only [Activation.release] at hi'
    split at hi'
    · rw [instance?_modifyInstance] at hi'
      split at hi'
      · obtain ⟨i, -, rfl⟩ := Option.map_eq_some_iff.mp hi'
        cases hbusy
      · next ha => exact hrest hi' fun hself => absurd hself.symm ha
    · next hexclusive => exact hrest hi' fun _ => hexclusive
  | serve acts hserved =>
    intro a' i' hi' hbusy
    rw [Store.instance?, hserved.instances] at hi'
    exact h _ _ hi' hbusy

/-! ### Resting stores -/

/-- Nothing runs in any instance. -/
def Resting (s : Store) : Prop :=
  ∀ (a : Address) (i : Instance), s.instance? a = some i →
    i.thread = .idle i.bindings.config ∧ i.busy = false

/-- A machine in order, over threads that were idle before the embedder's call. -/
structure Regular (m : Machine) : Prop where
  healthy : ∃ outer, Healthy [] outer m ∧
    ∀ {a : Address} {b : Bindings}, m.store.bindings? a = some b → outer a = some (.idle b.config)
  limited : Limited (state m)
  occupied : Occupied (state m)

theorem Resting.limited (h : Resting s) : Limited (s, []) := by
  refine ⟨fun hi => ?_, fun hact => nomatch hact⟩
  rw [(h _ _ hi).1]
  exact Thread.inBounds_idle _

theorem Resting.occupied (h : Resting s) : Occupied (s, []) := by
  intro a i hi hbusy
  rw [(h _ _ hi).2] at hbusy
  cases hbusy

theorem Resting.thread? (h : Resting s) {a : Address} {b : Bindings} (hb : s.bindings? a = some b) :
    s.thread? a = some (.idle b.config) := by
  obtain ⟨i, hi, rfl, ht⟩ := exists_instance hb
  rw [ht, (h _ _ hi).1]

theorem Regular.resting {r : Except Error (List Value)} (h : Regular ⟨s, .returned r, []⟩) :
    Resting s := by
  obtain ⟨⟨outer, hhealthy, hidle⟩, -, hoccupied⟩ := h
  intro a i hi
  have hb : s.bindings? a = some i.bindings := by
    rw [Store.bindings?, hi]
    rfl
  have hthread : s.thread? = outer := hhealthy.focus.eq_outer
  constructor
  · have ht := congrFun hthread a
    rw [hidle hb, Store.thread?, hi] at ht
    exact Option.some.inj ht
  · refine Bool.eq_false_iff.mpr fun hbusy => ?_
    obtain ⟨act, hact, -⟩ := hoccupied _ _ hi hbusy
    cases hact

theorem regular_returned {r : Except Error (List Value)} (hsound : Sound s) (h : Resting s) :
    Regular ⟨s, .returned r, []⟩ :=
  ⟨⟨s.thread?, ⟨hsound, .refl⟩, h.thread?⟩, h.limited, h.occupied⟩

/-- Moves keep what holds of the limits and of taken instances. -/
theorem Moves.keep (h : Moves G x y) (hlimited : Limited x) (hoccupied : Occupied x) :
    Limited y ∧ Occupied y := by
  induction h with
  | refl => exact ⟨hlimited, hoccupied⟩
  | tail _ hmove ih => exact ⟨ih.1.move hmove, ih.2.move hmove⟩

theorem Regular.step (h : Regular m) : Regular m.step := by
  obtain ⟨⟨outer, hhealthy, hidle⟩, hlimited, hoccupied⟩ := h
  have hmoves := moves_step m
  obtain ⟨hlimited', hoccupied'⟩ := hmoves.keep hlimited hoccupied
  refine ⟨⟨outer, ?_, fun {a b} hb => hidle ((hmoves.stays.bindings a).symm.trans hb)⟩, hlimited',
    hoccupied'⟩
  rcases step_returned_or_open m with hstep | hopen
  · rw [hstep]
    exact hhealthy
  · exact (hhealthy.step hopen).1

/-! ### Threads of regular machines -/

section Threads

variable {P : Module → Thread → Prop} {τ outer : Threads}

/-- The threads of all instances have a property. -/
def AllThreads (P : Module → Thread → Prop) (s : Store) (τ : Threads) : Prop :=
  ∀ {a : Address} {b : Bindings} {t : Thread}, s.bindings? a = some b → τ a = some t → P b.module t

variable (hsteady : ∀ {m : Module} {e t : Thread} {final pending : List ValueType},
  Steady m e final pending t → P m e → P m t)
include hsteady

theorem Active.threads {act : Activation} {pending : List ValueType} (h : Active s τ act pending)
    (hentry : AllThreads P s (τ.put act.self act.entry)) : AllThreads P s τ := by
  intro a b' t' hb' ht'
  obtain ⟨b, t, hb, ht, hact⟩ := h
  by_cases ha : a = act.self
  · subst ha
    cases ht.symm.trans ht'
    cases hb.symm.trans hb'
    exact hsteady hact (hentry hb (Threads.put_apply ..))
  · exact hentry hb' ((if_neg ha).trans ht')

theorem Nested.threads {below waiting : List Waiting} (h : Nested s below outer τ waiting)
    (houter : AllThreads P s outer) : AllThreads P s τ := by
  induction h with
  | refl => exact houter
  | host _ _ ih => exact ih
  | wasm hact _ ih => exact hact.threads hsteady ih

theorem Healthy.threads {below : List Waiting} (h : Healthy below outer m)
    (houter : AllThreads P m.store outer) : AllThreads P m.store m.store.thread? := by
  obtain ⟨s, focus, waiting⟩ := m
  obtain ⟨-, hfocus⟩ := h
  cases focus with
  | wasm act => exact hfocus.1.threads hsteady (hfocus.2.threads hsteady houter)
  | host => exact hfocus.2.threads hsteady houter
  | call => exact hfocus.2.2.threads hsteady houter
  | returned => exact Nested.threads hsteady hfocus houter

/-- What activations keep holds of the thread of every instance, if it holds of idle threads. -/
theorem Regular.thread (hidle : ∀ m config, P m (.idle config)) (h : Regular m) {a : Address}
    {i : Instance} (hi : m.store.instance? a = some i) : P i.bindings.module i.thread := by
  obtain ⟨⟨outer, hhealthy, houter⟩, -, -⟩ := h
  have hall : AllThreads P m.store outer := by
    intro a b t hb ht
    cases (houter hb).symm.trans ht
    exact hidle b.module b.config
  have hb : m.store.bindings? a = some i.bindings := by
    rw [Store.bindings?, hi]
    rfl
  have ht : m.store.thread? a = some i.thread := by
    rw [Store.thread?, hi]
    rfl
  exact hhealthy.threads hsteady hall hb ht

end Threads

/-! ### What the embedder does -/

theorem Resting.of_instances (h : Resting s) (hinstances : s'.instances = s.instances) :
    Resting s' := by
  intro a i hi
  rw [Store.instance?, hinstances] at hi
  exact h _ _ hi

theorem Resting.served (h : Resting s) (hserved : s.Served G s') : Resting s' :=
  h.of_instances hserved.instances

theorem Resting.push {o : Objects} {handles : List (String × Address)} {events : List Event}
    {new : Option Instance} (h : Resting s)
    (hnew : ∀ i, new = some i → i.thread = .idle i.bindings.config ∧ i.busy = false) :
    Resting ⟨o, s.instances.push new, handles, events⟩ := by
  intro a i hi
  replace hi : ((s.instances.push new)[a]?).join = some i := hi
  rw [Array.getElem?_push] at hi
  split at hi
  · exact hnew i hi
  · exact h _ _ hi

theorem resting_forget (kept : Address → Bool) (h : Resting s) :
    Resting { s with instances := s.instances.mapIdx fun a i => if kept a then i else none } := by
  intro a i hi
  replace hi : ((s.instances.mapIdx fun a i => if kept a then i else none)[a]?).join = some i := hi
  rw [Array.getElem?_mapIdx] at hi
  cases hold : s.instances[a]? with
  | none =>
    rw [hold] at hi
    cases hi
  | some old =>
    rw [hold] at hi
    replace hi : (if kept a then old else none) = some i := hi
    split at hi
    · refine h a i ?_
      rw [Store.instance?, hold]
      exact hi
    · cases hi

/-- The embedder finds nothing running and leaves nothing running. -/
theorem resting_of_acts {known' : List FuncRef} (hsound : Sound s)
    (hknown : ∀ f ∈ known, f.Genuine s) (h : Resting s) (hacts : Acts s known s' known') :
    Resting s' := by
  cases hacts with
  | lookup => exact h
  | slot => exact h
  | addGlobal c => exact h.of_instances rfl
  | assignGlobal a v => exact h.served (Store.served_assignGlobal (·.Held known) s a v)
  | addMemory m => exact h.of_instances rfl
  | growMemory a delta => exact h.served (Store.served_growMemory (·.Held known) s a delta)
  | assignMemory a offset data =>
    exact h.served (Store.served_assignMemory (·.Held known) s a offset data)
  | addTable type => exact h.of_instances rfl
  | growTable a delta => exact h.served (Store.served_growTable (·.Held known) s a delta)
  | setSlot a index f hf => exact h.served (s.served_setSlot a index hf)
  | note handles events => exact h.of_instances rfl
  | forget kept => exact resting_forget kept h
  | link hdecode hvalid hexternals himports hsetup =>
    have hleads := leads_instantiate hsound hknown hdecode hvalid hexternals himports
    unfold Leads at hleads
    rw [hsetup] at hleads
    obtain ⟨-, -, rfl⟩ := hleads
    refine h.push fun i hi => ?_
    cases hi
    exact ⟨rfl, rfl⟩
  | abort => exact h.push fun i hi => by cases hi

/-- Every machine that can be reached is regular. -/
theorem Reachable.regular (h : Reachable known m) : Regular m := by
  induction h with
  | start =>
    refine regular_returned sound_empty fun a i hi => ?_
    cases lt_size hi
  | act hreached hacts ih =>
    obtain ⟨⟨_, hsound, _⟩, hknown⟩ := hreached.orderly
    exact regular_returned (sound_of_acts hsound hknown hacts).1
      (resting_of_acts hsound hknown ih.resting hacts)
  | call hreached hcalls ih =>
    obtain ⟨⟨_, hsound, _⟩, hknown⟩ := hreached.orderly
    have hresting := ih.resting
    have hmoves := moves_of_calls hcalls
    obtain ⟨hlimited, hoccupied⟩ := hmoves.keep hresting.limited hresting.occupied
    exact ⟨⟨_, (clean_of_calls hsound hknown hcalls).toHealthy,
      fun {a b} hb => hresting.thread? ((hmoves.stays.bindings a).symm.trans hb)⟩, hlimited,
      hoccupied⟩
  | step _ ih => exact ih.step

theorem Reachable.resting {r : Except Error (List Value)}
    (h : Reachable known ⟨s, .returned r, []⟩) : Resting s :=
  h.regular.resting

end Wasm.Safety
