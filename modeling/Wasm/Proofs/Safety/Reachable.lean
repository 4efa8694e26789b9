import Wasm.Embedding
import Wasm.Proofs.Safety.Machines
import Wasm.Proofs.Safety.Moves
import Wasm.Proofs.Safety.Setup

/-!
# Reachable machines

What an embedder can bring about.  It creates objects, changes them, instantiates modules that it
has decoded, gives instances up, and calls functions; while a call runs, the machine takes its
steps.  The references to functions that it has are those to functions of its own and those that it
was given.  Every machine that can be reached is in order.
-/

namespace Wasm

/-! ### What the embedder has -/

/-- A reference that the embedder can have: to a function of its own, or one that it knows. -/
def FuncRef.Held (known : List FuncRef) : FuncRef → Prop
  | .host .. => True
  | f => f ∈ known

/-- A module of the host, made of what the embedder has. -/
def NativeModule.Held (known : List FuncRef) (m : NativeModule) : Prop :=
  ∀ {name : String} {f : FuncRef}, m.member? name = some (.func f) → f.Held known

def Provider.Held (known : List FuncRef) : Provider → Prop
  | .native m => m.Held known
  | .instance _ => True

namespace Safety

/-- What the embedder can do to a store while nothing runs. -/
inductive Acts (s : Store) (known : List FuncRef) : Store → List FuncRef → Prop where
  | lookup {a : Address} {name : String} {f : FuncRef}
      (h : s.provided? (.instance a) name = some (.func f)) : Acts s known s (f :: known)
  | slot {a : Address} {index : UInt32} {f : FuncRef} (h : s.slot a index = .ok (some f)) :
      Acts s known s (f :: known)
  | addGlobal (c : Cell) : Acts s known (s.addGlobal c).2 known
  | assignGlobal (a : Address) (v : Value) : Acts s known (s.assignGlobal a v).2 known
  | addMemory (m : Memory) : Acts s known (s.addMemory m).2 known
  | growMemory (a : Address) (delta : UInt32) : Acts s known (s.growMemory a delta).2 known
  | assignMemory (a : Address) (offset : Nat) (data : List UInt8) :
      Acts s known (s.assignMemory a offset data).2 known
  | addTable (type : TableType) : Acts s known (s.addTable (.allocate type)).2 known
  | growTable (a : Address) (delta : UInt32) : Acts s known (s.growTable a delta).2 known
  | setSlot (a : Address) (index : UInt32) (f : Option FuncRef)
      (h : ∀ g, f = some g → g.Held known) : Acts s known (s.setSlot a index f).2 known
  /-- It changes its handles, and takes the events. -/
  | note (handles : List (String × Address)) (events : List Event) :
      Acts s known ⟨s.objects, s.instances, handles, events⟩ known
  /-- It gives instances up. -/
  | forget (kept : Address → Bool) : Acts s known
      { s with instances := s.instances.mapIdx fun a i => if kept a then i else none } known
  /-- It instantiates a module, up to the start function. -/
  | link {input : List UInt8} {m : Module} {externals : Externals} {config : Config}
      {b b' : Bindings} {o : Objects} (hdecode : Binary.decode input = .ok m)
      (hvalid : Validation.module m = .ok ())
      (hexternals : ∀ {name p}, externals.lookup name = some p → p.Held known)
      (himports : Instantiate.imports s externals ⟨s.instances.size, m, config, #[], #[], none,
        none⟩ m.imports = .ok b)
      (hsetup : Instantiate.setup b s.objects = .ok b' o) :
      Acts s known ⟨o, s.instances.push (some ⟨b', .idle config, false⟩), s.handles, s.events⟩ known
  /-- It fails to instantiate a module. -/
  | abort {input : List UInt8} {m : Module} {externals : Externals} {config : Config}
      {b : Bindings} {e : Error} {o : Objects} (hdecode : Binary.decode input = .ok m)
      (hvalid : Validation.module m = .ok ())
      (hexternals : ∀ {name p}, externals.lookup name = some p → p.Held known)
      (himports : Instantiate.imports s externals ⟨s.instances.size, m, config, #[], #[], none,
        none⟩ m.imports = .ok b)
      (hsetup : Instantiate.setup b s.objects = .error e o) :
      Acts s known ⟨o, s.instances.push none, s.handles, s.events⟩ known

/-- How the embedder calls a function. -/
inductive Calls (s : Store) (known : List FuncRef) : Machine → Prop where
  | handle (a : Address) (name : String) (args : List Value) :
      Calls s known (Machine.invokeHandle s a name args [])
  | index {a : Address} {b : Bindings} {index : UInt32} {f : Func} (hb : s.bindings? a = some b)
      (hf : b.func index = .ok f) (args : List Value) :
      Calls s known (Machine.invokeIndex s a true index args [])
  | native {m : NativeModule} (hm : m.Held known) (name : String) (args : List Value) :
      Calls s known (Machine.invokeNative s m name args [])
  | func {m : NativeModule} {f : FuncRef} (hm : m.Held known) (hf : f.Held known)
      (args : List Value) : Calls s known ⟨s, .call (.native m) ⟨f, args⟩, []⟩

/-- The machines that can be reached, each with the references that the embedder knows.  It acts
and calls when the call before has returned. -/
inductive Reachable : List FuncRef → Machine → Prop where
  | start : Reachable [] ⟨{}, .returned (.ok []), []⟩
  | act {known known' : List FuncRef} {s s' : Store} {r : Except Error (List Value)}
      (h : Reachable known ⟨s, .returned r, []⟩) (hacts : Acts s known s' known') :
      Reachable known' ⟨s', .returned r, []⟩
  | call {known : List FuncRef} {s : Store} {r : Except Error (List Value)} {m : Machine}
      (h : Reachable known ⟨s, .returned r, []⟩) (hcalls : Calls s known m) : Reachable known m
  | step {known : List FuncRef} {m : Machine} (h : Reachable known m) : Reachable known m.step

/-! ### Genuine references -/

variable {s s' : Store} {known known' : List FuncRef} {m : Machine}

theorem genuine_of_held {f : FuncRef} (hknown : ∀ f ∈ known, f.Genuine s) (h : f.Held known) :
    f.Genuine s := by
  cases f with
  | host => trivial
  | owned => exact hknown _ h

theorem native_of_held {m : NativeModule} (hknown : ∀ f ∈ known, f.Genuine s) (h : m.Held known) :
    m.Genuine s := by
  intro name member hmember
  cases member with
  | func f => exact genuine_of_held hknown (h hmember)
  | _ => trivial

theorem provider_of_held {p : Provider} (hknown : ∀ f ∈ known, f.Genuine s) (h : p.Held known) :
    p.Genuine s := by
  cases p with
  | native m => exact native_of_held hknown h
  | «instance» a => trivial

/-! ### What the embedder does -/

theorem genuine_cons {f : FuncRef} (hknown : ∀ f ∈ known, f.Genuine s) (hf : f.Genuine s) :
    ∀ g ∈ f :: known, g.Genuine s := by
  intro g hg
  cases hg with
  | head => exact hf
  | tail _ hg => exact hknown g hg

/-- There are more objects, and in tables there are genuine references. -/
theorem sound_of_objects (hsound : Sound s) (hinstances : s'.instances = s.instances)
    (hextends : s.objects.Extends s'.objects) (hslots : s'.objects.Slots (·.Genuine s)) :
    Sound s' ∧ s.Keeps s' := by
  have hstays := Store.stays_of_instances hinstances
  refine ⟨hsound.extends hstays.keeps hextends (fun hb => .inl ((hstays.bindings _).symm.trans hb))
    fun htable hslot => ?_, hstays.keeps⟩
  exact (hslots htable hslot).keeps hstays.keeps

theorem sound_of_served (hsound : Sound s) (h : s.Served (·.Genuine s) s') :
    Sound s' ∧ s.Keeps s' :=
  ⟨hsound.served h, (Store.stays_of_instances h.instances).keeps⟩

theorem bindings?_forget {kept : Address → Bool} {a : Address} {b : Bindings}
    (hb : Store.bindings?
      { s with instances := s.instances.mapIdx fun a i => if kept a then i else none } a = some b) :
    s.bindings? a = some b := by
  replace hb : (((s.instances.mapIdx fun a i => if kept a then i else none)[a]?).join).map
    (·.bindings) = some b := hb
  rw [Array.getElem?_mapIdx] at hb
  rw [Store.bindings?, Store.instance?]
  cases hi : s.instances[a]? with
  | none =>
    rw [hi] at hb
    cases hb
  | some i =>
    rw [hi] at hb
    split at hb
    · exact hb
    · cases hb

/-- Instances that are given up take nothing with them. -/
theorem sound_forget (kept : Address → Bool) (hsound : Sound s) :
    Sound { s with instances := s.instances.mapIdx fun a i => if kept a then i else none } ∧
      s.Keeps { s with instances := s.instances.mapIdx fun a i => if kept a then i else none } := by
  have hkeeps : s.Keeps
      { s with instances := s.instances.mapIdx fun a i => if kept a then i else none } :=
    ⟨by simp, fun _ hb => bindings?_forget hb⟩
  exact ⟨hsound.extends hkeeps (Objects.extends_refl _) (fun hb => .inl (bindings?_forget hb))
    fun htable hslot => (hsound.slots htable hslot).keeps hkeeps, hkeeps⟩

/-- Instantiation up to the start function, in both of its ends. -/
theorem leads_instantiate {input : List UInt8} {m : Module} {externals : Externals}
    {config : Config} {b : Bindings} (hsound : Sound s) (hknown : ∀ f ∈ known, f.Genuine s)
    (hdecode : Binary.decode input = .ok m) (hvalid : Validation.module m = .ok ())
    (hexternals : ∀ {name p}, externals.lookup name = some p → p.Held known)
    (himports : Instantiate.imports s externals ⟨s.instances.size, m, config, #[], #[], none,
      none⟩ m.imports = .ok b) :
    Leads (Instantiate.setup b) s.objects
      (fun o => Sound ⟨o, s.instances.push none, s.handles, s.events⟩) fun b' o =>
        Sound ⟨o, s.instances.push (some ⟨b', .idle config, false⟩), s.handles, s.events⟩ ∧
          b'.module = m ∧ b'.config = config := by
  have hempty : Imported s [] ⟨s.instances.size, m, config, #[], #[], none, none⟩ :=
    ⟨.nil, .nil, fun h => absurd h (Nat.lt_irrefl 0), fun h => absurd h (Nat.lt_irrefl 0)⟩
  obtain ⟨himported, hself, hmodule, hconfig⟩ := imported_of_imports hsound
    (fun h => provider_of_held hknown (hexternals h)) hempty himports
  rw [List.nil_append] at himported
  obtain rfl : b.module = m := hmodule
  have hpassed := Validation.passed_of_module hvalid
  have hsetup := leads_setup hsound hpassed himported hself
  unfold Leads at hsetup ⊢
  cases hrun : Instantiate.setup b s.objects with
  | ok b' o =>
    rw [hrun] at hsetup
    exact ⟨sound_of_ready hsound (Binary.codesRead_of_decode hdecode) hpassed himported hself
      hsetup, hsetup.module, hsetup.config.trans hconfig⟩
  | error e o =>
    rw [hrun] at hsetup
    exact sound_of_failure hsound hsetup

/-- Whatever the embedder does, the store stays sound, and what it comes to know is genuine. -/
theorem sound_of_acts (hsound : Sound s) (hknown : ∀ f ∈ known, f.Genuine s)
    (hacts : Acts s known s' known') : Sound s' ∧ ∀ f ∈ known', f.Genuine s' := by
  have hkept {s' : Store} (h : Sound s' ∧ s.Keeps s') : Sound s' ∧ ∀ f ∈ known, f.Genuine s' :=
    ⟨h.1, fun f hf => (hknown f hf).keeps h.2⟩
  cases hacts with
  | lookup h =>
    exact ⟨hsound, genuine_cons hknown (genuine_provided? (p := .instance _) hsound trivial h)⟩
  | slot h => exact ⟨hsound, genuine_cons hknown (hsound.genuine_of_slot h)⟩
  | addGlobal c => exact hkept (sound_of_objects hsound rfl (extends_pushGlobal ..) hsound.slots)
  | assignGlobal a v =>
    exact hkept (sound_of_served hsound (Store.served_assignGlobal _ s a v))
  | addMemory m => exact hkept (sound_of_objects hsound rfl (extends_pushMemory ..) hsound.slots)
  | growMemory a delta =>
    exact hkept (sound_of_served hsound (Store.served_growMemory _ s a delta))
  | assignMemory a offset data =>
    exact hkept (sound_of_served hsound (Store.served_assignMemory _ s a offset data))
  | addTable type =>
    refine hkept (sound_of_objects hsound rfl (extends_pushTable ..)
      (slots_pushTable hsound.slots fun hslot => ?_))
    exact absurd hslot (slots_allocate type)
  | growTable a delta =>
    exact hkept (sound_of_served hsound (Store.served_growTable _ s a delta))
  | setSlot a index f h =>
    exact hkept (sound_of_served hsound
      (s.served_setSlot a index fun g hg => genuine_of_held hknown (h g hg)))
  | note handles events =>
    exact hkept (sound_of_objects hsound rfl (Objects.extends_refl _) hsound.slots)
  | forget kept => exact hkept (sound_forget kept hsound)
  | link hdecode hvalid hexternals himports hsetup =>
    have h := leads_instantiate hsound hknown hdecode hvalid hexternals himports
    unfold Leads at h
    rw [hsetup] at h
    exact hkept ⟨h.1, keeps_push⟩
  | abort hdecode hvalid hexternals himports hsetup =>
    have h := leads_instantiate hsound hknown hdecode hvalid hexternals himports
    unfold Leads at h
    rw [hsetup] at h
    exact hkept ⟨h, keeps_push⟩

/-! ### Reachable machines -/

/-- What holds of every machine that can be reached. -/
structure Orderly (known : List FuncRef) (m : Machine) : Prop where
  healthy : ∃ outer, Healthy [] outer m
  known : ∀ f ∈ known, f.Genuine m.store

theorem orderly_returned {r : Except Error (List Value)} (hsound : Sound s)
    (hknown : ∀ f ∈ known, f.Genuine s) : Orderly known ⟨s, .returned r, []⟩ :=
  ⟨⟨s.thread?, hsound, .refl⟩, hknown⟩

theorem sound_empty : Sound {} := by
  constructor
  · intro a b hb
    obtain ⟨i, hi, -⟩ := exists_instance hb
    cases lt_size hi
  · intro a table i f htable
    cases (Array.getElem?_eq_some_iff.mp htable).1

/-- A call of the embedder begins in order, and without an internal error. -/
theorem clean_of_calls (hsound : Sound s) (hknown : ∀ f ∈ known, f.Genuine s)
    (hcalls : Calls s known m) : Clean [] s.thread? m := by
  cases hcalls with
  | handle a name args => exact clean_invokeHandle a name args hsound .refl
  | index hb hf args => exact clean_invokeIndex true args hsound hb hf .refl
  | native hm name args =>
    exact clean_invokeNative name args hsound (native_of_held hknown hm) .refl
  | func hm hf args =>
    exact ⟨⟨hsound, native_of_held hknown hm, genuine_of_held hknown hf, .refl⟩,
      fun h => nomatch h⟩

theorem moves_of_calls (hcalls : Calls s known m) : Moves (fun _ => True) (s, []) (state m) := by
  show Moves _ (s, ([] : List Waiting).flatMap Waiting.activations) _
  cases hcalls with
  | handle a name args => exact moves_invokeHandle ..
  | index hb hf args => exact moves_invokeIndex ..
  | native hm name args => exact moves_invokeNative ..
  | func hm hf args => exact .refl

/-- A machine whose outermost call has returned stays as it is; any other takes a step. -/
theorem step_returned_or_open (m : Machine) :
    m.step = m ∨ (m.waiting = [] → ∀ r, m.focus ≠ .returned r) := by
  obtain ⟨s, focus, waiting⟩ := m
  cases focus with
  | returned r =>
    cases waiting with
    | nil => exact .inl rfl
    | cons => exact .inr fun h => nomatch h
  | _ => exact .inr fun _ _ h => nomatch h

theorem Orderly.step (h : Orderly known m) : Orderly known m.step := by
  rcases step_returned_or_open m with hstep | hopen
  · rw [hstep]
    exact h
  · obtain ⟨⟨outer, hhealthy⟩, hknown⟩ := h
    have hkeeps := (moves_step m).stays.keeps
    exact ⟨⟨outer, (hhealthy.step hopen).1⟩, fun f hf => (hknown f hf).keeps hkeeps⟩

/-- Every machine that can be reached is in order. -/
theorem Reachable.orderly (h : Reachable known m) : Orderly known m := by
  induction h with
  | start => exact orderly_returned sound_empty fun _ h => nomatch h
  | act _ hacts ih =>
    obtain ⟨⟨_, hsound, _⟩, hknown⟩ := ih
    obtain ⟨hsound', hknown'⟩ := sound_of_acts hsound hknown hacts
    exact orderly_returned hsound' hknown'
  | call _ hcalls ih =>
    obtain ⟨⟨_, hsound, _⟩, hknown⟩ := ih
    exact ⟨⟨_, (clean_of_calls hsound hknown hcalls).toHealthy⟩,
      fun f hf => (hknown f hf).keeps (moves_of_calls hcalls).stays.keeps⟩
  | step _ ih => exact ih.step

end Safety

end Wasm
