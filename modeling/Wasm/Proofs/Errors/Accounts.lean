import Wasm.Proofs.Errors.Host
import Wasm.Proofs.Execution.Stops
import Wasm.Proofs.Isolation.Departures
import Wasm.Proofs.Safety.Moves

/-!
# Accounts of failures

A function of the host may build failures of its own, and it may hand on failures that it has been
told of.  `Proc.Builds own` says that it builds no others than `own` allows: if every failure among
its answers is accounted for, then so is the one that it returns.  A machine in which this holds of
all host functions, wherever they are kept (`Machine.Builds`), keeps it from step to step, and every
failure that a call returns is accounted for (`Machine.Builds.step`).
-/

namespace Wasm

/-! ### What is built -/

/-- If the result is a failure, it is accounted for. -/
def Accounts (own : Error → Prop) {α : Type} (r : Except Error α) : Prop :=
  ∀ ⦃e : Error⦄, r = .error e → e.Accounted own

/-- If there is a result, and it is a failure, it is accounted for. -/
def AccountsSome (own : Error → Prop) {α : Type} (r : Option (Except Error α)) : Prop :=
  ∀ ⦃x : Except Error α⦄, r = some x → Accounts own x

/-- The failure in an answer, if there is one, is accounted for. -/
def Request.Accounts (own : Error → Prop) : (request : Request) → request.Answer → Prop
  | .getGlobal .., r => Wasm.Accounts own (α := Value) r
  | .setGlobal .., r => Wasm.Accounts own (α := Unit) r
  | .writeMemory .., r => Wasm.Accounts own (α := Unit) r
  | .readCell _, r => AccountsSome own (α := Value) r
  | .setCell .., r => AccountsSome own (α := Unit) r
  | .readBytes .., r => AccountsSome own (α := List UInt8) r
  | .putBytes .., r => AccountsSome own (α := Unit) r
  | .growMemory .., r => AccountsSome own (α := UInt32) r
  | .growTable .., r => AccountsSome own (α := UInt32) r
  | .slotType .., r => AccountsSome own (α := Option FuncType) r
  | .setSlot .., r => AccountsSome own (α := Unit) r
  | .emit _, _ | .member .., _ | .exports _, _ | .hasMemory _, _ => True

/-- A host function that, given answers that are accounted for, ends in a result that is. -/
def Proc.Builds (own : Error → Prop) : Proc → Prop
  | .done r => Accounts own r
  | .ask request next => ∀ a, request.Accounts own a → (next a).Builds own
  | .invoke _ _ _ next => ∀ r, Accounts own r → (next r).Builds own
  | .call _ _ otherwise next =>
    otherwise.Builds own ∧ ∀ r, Accounts own r → (next r).Builds own

def FuncRef.Builds (own : Error → Prop) : FuncRef → Prop
  | .host _ run => ∀ args, (run args).Builds own
  | .owned .. => True

def Member.Builds (own : Error → Prop) : Member → Prop
  | .func f => f.Builds own
  | _ => True

def NativeModule.Builds (own : Error → Prop) (m : NativeModule) : Prop :=
  ∀ x ∈ m.members, x.2.Builds own

def Provider.Builds (own : Error → Prop) : Provider → Prop
  | .native m => m.Builds own
  | .instance _ => True

def Caller.Builds (own : Error → Prop) : Caller → Prop
  | .native m => m.Builds own
  | .instance _ => True

/-- The imported functions of an instance. -/
def Bindings.Builds (own : Error → Prop) (b : Bindings) : Prop :=
  ∀ ⦃g : FuncRef⦄, Func.imported g ∈ b.funcs → g.Builds own

/-- The functions in tables, and those that instances have imported. -/
structure Store.Builds (own : Error → Prop) (s : Store) : Prop where
  slots : s.objects.Slots (·.Builds own)
  bound : ∀ {a : Address} {b : Bindings}, s.bindings? a = some b → b.Builds own

def Focus.Builds (own : Error → Prop) : Focus → Prop
  | .wasm _ => True
  | .host caller _ proc => caller.Builds own ∧ proc.Builds own
  | .call caller sent => caller.Builds own ∧ sent.func.Builds own
  | .returned r => Accounts own r

def Waiting.Builds (own : Error → Prop) : Waiting → Prop
  | .wasm .. => True
  | .host caller _ next => caller.Builds own ∧ ∀ r, Accounts own r → (next r).Builds own

/-- All host functions in reach build what they may, and what a call has returned is accounted
for. -/
structure Machine.Builds (own : Error → Prop) (m : Machine) : Prop where
  store : m.store.Builds own
  focus : m.focus.Builds own
  waiting : ∀ w ∈ m.waiting, w.Builds own

section

variable {own : Error → Prop} {α β : Type} {e : Error} {code : Nat} {message : String}

theorem accounts_ok (a : α) : Accounts own (.ok a : Except Error α) :=
  fun _ h => nomatch h

theorem accounts_error (h : e.Accounted own) : Accounts own (.error e : Except Error α) := by
  intro e' he
  cases he
  exact h

theorem accounts_trap (t : Trap) : Accounts own (.error t.error : Except Error α) :=
  accounts_error (Error.belongs_trap t).accounted

theorem accounts_runtime (h : Category.ofCode code = .runtime) :
    Accounts own (.error (.runtime code message) : Except Error α) :=
  accounts_error (Error.belongs_runtime h).accounted

theorem Accounts.bind {r : Except Error α} {f : α → Except Error β} (h : Accounts own r)
    (hf : ∀ a, Accounts own (f a)) : Accounts own (r >>= f) := by
  cases r with
  | ok a => exact hf a
  | error e => exact accounts_error (h rfl)

theorem Accounts.map {r : Except Error α} (h : Accounts own r) (f : α → β) :
    Accounts own (r.map f) := by
  cases r with
  | ok a => exact accounts_ok _
  | error e => exact accounts_error (h rfl)

end

/-! ### Failures of executions -/

/-- A computation with a state in which every failure's category and code agree. -/
def Consistent {σ α : Type} (c : EStateM Error σ α) : Prop :=
  ∀ s e s', c s = .error e s' → e.Agrees

section Consistent

variable {σ α β : Type} {c : EStateM Error σ α} {f : α → EStateM Error σ β}

theorem consistent_pure (a : α) : Consistent (pure a : EStateM Error σ α) :=
  fun _ _ _ h => nomatch h

theorem consistent_throw {e : Error} (he : e.Agrees) : Consistent (throw e : EStateM Error σ α) := by
  intro s e' s' h
  cases h
  exact he

theorem consistent_get : Consistent (get : EStateM Error σ σ) :=
  fun _ _ _ h => nomatch h

theorem consistent_set (s : σ) : Consistent (set s : EStateM Error σ PUnit) :=
  fun _ _ _ h => nomatch h

theorem consistent_modifyGet (g : σ → α × σ) : Consistent (modifyGet g : EStateM Error σ α) :=
  fun _ _ _ h => nomatch h

theorem Consistent.bind (h : Consistent c) (hf : ∀ a, Consistent (f a)) : Consistent (c >>= f) := by
  intro s e s' hrun
  replace hrun : EStateM.bind c f s = .error e s' := hrun
  delta EStateM.bind at hrun
  cases hc : c s with
  | ok a s₁ =>
    rw [hc] at hrun
    exact hf a _ _ _ hrun
  | error e₁ s₁ =>
    rw [hc] at hrun
    cases hrun
    exact h _ _ _ hc

theorem Consistent.rethrown {g : Error → Error} (h : Consistent c)
    (hg : ∀ e : Error, e.Agrees → (g e).Agrees) :
    Consistent (tryCatch c fun e => throw (g e)) := by
  intro s e s' hrun
  replace hrun : EStateM.tryCatch c _ s = .error e s' := hrun
  delta EStateM.tryCatch at hrun
  dsimp only at hrun
  cases hc : c s with
  | ok a s₁ =>
    rw [hc] at hrun
    cases hrun
  | error e₁ s₁ =>
    rw [hc] at hrun
    cases hrun
    exact hg _ (h _ _ _ hc)

end Consistent

namespace Execution

variable {α : Type} {b : Bindings}

theorem Stops.consistent {c : Step α} (h : Stops c) : Consistent c := by
  intro x e y hrun
  rcases h x e y hrun with ⟨t, rfl⟩ | ⟨i, rfl⟩
  · exact (Error.belongs_trap t).agrees
  · exact (Error.belongs_validation (by decide) : (unknownType i).Belongs .validation).agrees

/-- Instructions that do not find their operands included. -/
theorem consistent_execute (b : Bindings) (i : Instr) : Consistent (execute b i) := by
  cases h : i.readable with
  | true => exact (stops_execute h).consistent
  | false =>
    intro x e y hrun
    rw [execute_of_unreadable h] at hrun
    cases hrun
    exact (Error.belongs_validation (by decide)).agrees

end Execution

theorem Error.Agrees.at {e : Error} (h : e.Agrees) (site : Site) : (e.at site).Agrees :=
  h.context _

namespace Activation

open Execution

theorem consistent_advance (b : Bindings) : Consistent (advance b) := by
  refine consistent_get.bind fun x => ?_
  cases x.thread.frames.items with
  | nil => exact (stops_trap _).consistent
  | cons f _ =>
    dsimp only
    cases f.rest with
    | nil => exact stops_exitFrame.consistent.bind fun _ => consistent_pure _
    | cons i rest =>
      exact consistent_get.bind fun _ => (stops_setFrames _).consistent.bind fun _ =>
        ((consistent_execute b i).rethrown fun _ he => he.at _).bind fun _ => consistent_pure _

theorem consistent_enter (b : Bindings) (index : UInt32) (args : List Value) :
    Consistent (enter index args b) :=
  (stops_operands.bind fun _ => (stops_orTrap _).bind fun _ => (stops_setOperands _).bind fun _ =>
    stops_call index).consistent

theorem consistent_resume (type : FuncType) (values : List Value) :
    Consistent (resume type values) := by
  unfold resume
  split
  · next hcheck =>
    obtain ⟨message, rfl⟩ := FuncType.checkResults_error hcheck
    exact consistent_throw (Error.belongs_runtime (by decide)).agrees
  · exact (stops_operands.bind fun _ => stops_orTrap_setOperands _).consistent

theorem consistent_finish (types : List ValueType) : Consistent (finish types) :=
  (stops_operands.bind fun _ => (stops_orTrap _).bind fun _ => (stops_setOperands _).bind fun _ =>
    stops_pure _).consistent

end Activation

namespace Safety

theorem IsPart.consistent {α : Type} {part : Bindings → Execution.Step α} (h : IsPart part)
    (b : Bindings) : Consistent (part b) := by
  cases h with
  | enter => exact Activation.consistent_enter b _ _
  | advance => exact Activation.consistent_advance b
  | resume => exact Activation.consistent_resume _ _
  | finish => exact Activation.consistent_finish _

/-- A part that runs in an instance, which may be gone. -/
theorem agrees_of_run {α : Type} {part : Bindings → Execution.Step α} {act : Activation}
    {s s' : Store} {e : Error} (hpart : IsPart part) (h : act.run part s = .error e s') :
    e.Agrees := by
  cases hi : s.instance? act.self with
  | none =>
    unfold Activation.run at h
    rw [hi] at h
    cases h
    rfl
  | some i =>
    rw [run_eq hi] at h
    cases hrun : part i.bindings ⟨s.objects, i.thread⟩ with
    | ok r x =>
      rw [hrun] at h
      cases h
    | error e' x =>
      rw [hrun] at h
      cases h
      exact hpart.consistent _ _ _ _ hrun

end Safety

/-! ### Stores -/

section

variable {own : Error → Prop} {s s' : Store} {acts acts' : List Activation}

theorem mem_of_lookup {α : Type} {l : List (String × α)} {name : String} {a : α}
    (h : l.lookup name = some a) : (name, a) ∈ l := by
  obtain ⟨before, after, rfl, -⟩ := List.lookup_eq_some_iff.mp h
  exact List.mem_append_right _ (List.mem_cons_self ..)

theorem NativeModule.Builds.member {m : NativeModule} (h : m.Builds own) {name : String}
    {member : Member} (hmember : m.member? name = some member) : member.Builds own :=
  h (name, member) (mem_of_lookup hmember)

theorem Bindings.Builds.funcRef? {b : Bindings} (h : b.Builds own) {x : UInt32} {f : FuncRef}
    (hf : b.funcRef? x = some f) : f.Builds own := by
  obtain ⟨g, hg, rfl⟩ := Option.map_eq_some_iff.mp hf
  cases g with
  | defined => trivial
  | imported g => exact h (Array.mem_of_getElem? hg)

theorem Bindings.Builds.member? {b : Bindings} (h : b.Builds own) {name : String}
    {member : Member} (hmember : b.member? name = some member) : member.Builds own := by
  obtain ⟨e, -, he⟩ := Option.bind_eq_some_iff.mp hmember
  split at he
  · obtain ⟨f, hf, rfl⟩ := Option.map_eq_some_iff.mp he
    exact h.funcRef? hf
  all_goals
    obtain ⟨a, -, rfl⟩ := Option.map_eq_some_iff.mp he
    trivial

theorem mem_of_func {b : Bindings} {k : UInt32} {f : Func} (h : b.func k = .ok f) :
    f ∈ b.funcs := by
  unfold Bindings.func at h
  split at h
  · next hf =>
    cases h
    exact Array.mem_of_getElem? hf
  · cases h

/-- The same instances, and in tables no functions that build anything else. -/
theorem Store.Builds.admits (h : s.Builds own) (hbindings : ∀ a, s'.bindings? a = s.bindings? a)
    (hadmits : s.objects.Admits (·.Builds own) s'.objects) : s'.Builds own := by
  refine ⟨hadmits.slots h.slots, fun {a b} hb => ?_⟩
  rw [hbindings] at hb
  exact h.bound hb

/-- The same instances, and the same tables. -/
theorem Store.Builds.congr (h : s.Builds own) (hbindings : ∀ a, s'.bindings? a = s.bindings? a)
    (htables : s'.objects.tables = s.objects.tables) : s'.Builds own :=
  h.admits hbindings (Objects.admits_of_tables htables)

theorem Store.Builds.moves (h : s.Builds own)
    (hmoves : Safety.Moves (·.Builds own) (s, acts) (s', acts')) : s'.Builds own :=
  h.admits hmoves.stays.bindings hmoves.changes.admits

theorem Store.Builds.served (h : s.Builds own) (hserved : s.Served (·.Builds own) s') :
    s'.Builds own :=
  h.admits (Store.stays_of_instances hserved.instances).bindings hserved.changes.admits

/-- What a host function refers to is one that builds what it may. -/
theorem Store.Builds.funcAt (h : s.Builds own) {caller : Caller} (hcaller : caller.Builds own)
    {source : FuncSource} {f : FuncRef} (hf : s.funcAt caller source = some f) : f.Builds own := by
  rcases Safety.funcAt_cases hf with
    ⟨m, name, rfl, hmember⟩ | ⟨a, b, name, hb, hmember⟩ | ⟨a, t, i, ht, hslot⟩
  · exact NativeModule.Builds.member hcaller hmember
  · exact (h.bound hb).member? hmember
  · exact h.slots ht hslot

theorem Store.Builds.departs (h : s.Builds own) {a : Address} {i : Instance}
    (hi : s.instance? a = some i) :
    Execution.Departs i.bindings s.objects (·.Builds own) := by
  have hb : s.bindings? a = some i.bindings := by
    rw [Store.bindings?, hi]
    rfl
  refine ⟨fun {k g} hg => h.bound hb (mem_of_func hg), fun {g} hg _ => ?_⟩
  obtain ⟨a', table, k, -, htable, hslot⟩ := hg
  exact h.slots htable hslot

end

end Wasm
