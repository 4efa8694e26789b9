import Wasm.Machine
import Wasm.Proofs.Execution.Requests
import Wasm.Proofs.Execution.Writes
import Wasm.Proofs.Safety.Steps

/-!
# Sound stores

What a store promises to the activations in it: every instance has typed bodies and is bound to what
its module declares, and every reference to a function, wherever it is kept, leads to a function of
its type as long as its owner exists.  Addresses of instances are never used again, so a reference
stays genuine when its owner goes.
-/

namespace Wasm

/-- The bindings of the instance at an address. -/
def Store.bindings? (s : Store) (a : Address) : Option Bindings :=
  (s.instance? a).map (·.bindings)

/-- The thread of each instance. -/
abbrev Threads := Address → Option Thread

/-- The threads of the instances of a store. -/
def Store.thread? (s : Store) : Threads :=
  fun a => (s.instance? a).map (·.thread)

/-- The threads with another one at an address. -/
def Threads.put (τ : Threads) (a : Address) (t : Thread) : Threads :=
  fun a' => if a' = a then some t else τ a'

theorem Threads.put_apply (τ : Threads) (a : Address) (t : Thread) : τ.put a t a = some t :=
  if_pos rfl

theorem Threads.put_put (τ : Threads) (a : Address) (t t' : Thread) :
    (τ.put a t).put a t' = τ.put a t' := by
  funext a'
  simp only [put]
  split <;> rfl

theorem Threads.put_eq_self {τ : Threads} {a : Address} {t : Thread} (h : τ a = some t) :
    τ.put a t = τ := by
  funext a'
  rw [put]
  split
  · next ha => rw [ha, h]
  · rfl

/-! ### References -/

/-- A reference that leads to a function of its type, unless its owner is gone. -/
def FuncRef.Genuine (s : Store) : FuncRef → Prop
  | .host .. => True
  | .owned type owner index => owner < s.instances.size ∧
    ∀ {b : Bindings}, s.bindings? owner = some b → ∃ g, b.func index = .ok g ∧ g.type = type

def Member.Genuine (s : Store) : Member → Prop
  | .func f => f.Genuine s
  | _ => True

/-- A module of the host that provides genuine functions. -/
def NativeModule.Genuine (s : Store) (m : NativeModule) : Prop :=
  ∀ {name : String} {member : Member}, m.member? name = some member → member.Genuine s

def Provider.Genuine (s : Store) : Provider → Prop
  | .native m => m.Genuine s
  | .instance _ => True

def Caller.Genuine (s : Store) : Caller → Prop
  | .native m => m.Genuine s
  | .instance _ => True

/-- The second store has no other instances at the addresses of the first one. -/
structure Store.Keeps (s s' : Store) : Prop where
  size : s.instances.size ≤ s'.instances.size
  bindings : ∀ {a : Address} {b : Bindings}, a < s.instances.size → s'.bindings? a = some b →
    s.bindings? a = some b

/-- The second store has the same instances, with the same bindings. -/
structure Store.Stays (s s' : Store) : Prop where
  size : s'.instances.size = s.instances.size
  bindings : ∀ a, s'.bindings? a = s.bindings? a

theorem Store.Stays.keeps {s s' : Store} (h : s.Stays s') : s.Keeps s' :=
  ⟨Nat.le_of_eq h.size.symm, fun {a _} _ hb => (h.bindings a).symm.trans hb⟩

theorem Store.stays_refl (s : Store) : s.Stays s :=
  ⟨rfl, fun _ => rfl⟩

theorem Store.Stays.trans {s s' s'' : Store} (h : s.Stays s') (h' : s'.Stays s'') : s.Stays s'' :=
  ⟨h'.size.trans h.size, fun a => (h'.bindings a).trans (h.bindings a)⟩

theorem Store.stays_of_instances {s s' : Store} (h : s'.instances = s.instances) : s.Stays s' := by
  refine ⟨congrArg Array.size h, fun a => ?_⟩
  rw [bindings?, bindings?, instance?, instance?, h]

theorem Store.keeps_refl (s : Store) : s.Keeps s :=
  s.stays_refl.keeps

variable {s s' : Store}

theorem Store.Keeps.trans {s'' : Store} (h : s.Keeps s') (h' : s'.Keeps s'') : s.Keeps s'' :=
  ⟨Nat.le_trans h.size h'.size, fun hlt hb =>
    h.bindings hlt (h'.bindings (Nat.lt_of_lt_of_le hlt h.size) hb)⟩

theorem FuncRef.Genuine.keeps {f : FuncRef} (h : f.Genuine s) (hkeeps : s.Keeps s') :
    f.Genuine s' := by
  cases f with
  | host => trivial
  | owned type owner index =>
    obtain ⟨hlt, hfunc⟩ := h
    exact ⟨Nat.lt_of_lt_of_le hlt hkeeps.size, fun hb => hfunc (hkeeps.bindings hlt hb)⟩

theorem Member.Genuine.keeps {x : Member} (h : x.Genuine s) (hkeeps : s.Keeps s') :
    x.Genuine s' := by
  cases x with
  | func f => exact FuncRef.Genuine.keeps h hkeeps
  | _ => trivial

theorem NativeModule.Genuine.keeps {m : NativeModule} (h : m.Genuine s) (hkeeps : s.Keeps s') :
    m.Genuine s' :=
  fun hmember => (h hmember).keeps hkeeps

theorem Caller.Genuine.keeps {c : Caller} (h : c.Genuine s) (hkeeps : s.Keeps s') :
    c.Genuine s' := by
  cases c with
  | native m => exact NativeModule.Genuine.keeps h hkeeps
  | «instance» a => trivial

namespace Safety

open Structured (Wired Holds)

/-! ### Instances -/

/-- The instance at an address is bound to what its module declares. -/
structure Bound (s : Store) (a : Address) (b : Bindings) : Prop where
  self : b.self = a
  wired : Wired b
  linked : Linked b s.objects
  imports : ∀ {x : UInt32} {f : FuncRef}, b.func x = .ok (.imported f) → f.Genuine s
  exports : ∀ {name : String} {x : UInt32}, b.exportIndex .func name = .ok x →
    ∃ g, b.func x = .ok g

/-- A store in which every instance is bound and every slot of a table holds a genuine reference. -/
structure Sound (s : Store) : Prop where
  instances : ∀ {a : Address} {b : Bindings}, s.bindings? a = some b → Bound s a b
  slots : s.objects.Slots (·.Genuine s)

theorem Sound.genuine_of_holds (h : Sound s) {b : Bindings} {o : Objects} {f : FuncRef}
    (htables : o.tables = s.objects.tables) (hholds : Holds b o f) : f.Genuine s := by
  obtain ⟨a, table, i, -, htable, hslot⟩ := hholds
  rw [htables] at htable
  exact h.slots htable hslot

theorem Sound.owns (h : Sound s) {a : Address} {b : Bindings} (hb : s.bindings? a = some b) :
    Owns b s.objects.tables := by
  intro o f x htables hholds hown
  have hgenuine := h.genuine_of_holds htables hholds
  cases f with
  | host => cases hown
  | owned type owner index =>
    rw [Bindings.ownIndex?] at hown
    split at hown
    · next howner =>
      cases hown
      rw [howner, (h.instances hb).self] at hgenuine
      exact hgenuine.2 hb
    · cases hown

/-! ### What a run changes -/

/-- The second store may come after the first one in a run: instances stay, only their threads
change. -/
structure Later (s s' : Store) : Prop extends s.Stays s' where
  objects : s.objects.Later s'.objects

theorem Later.keeps (h : Later s s') : s.Keeps s' :=
  h.toStays.keeps

theorem later_refl (s : Store) : Later s s :=
  ⟨Store.stays_refl s, Objects.later_refl _⟩

theorem Later.trans {s₁ s₂ s₃ : Store} (h : Later s₁ s₂) (h' : Later s₂ s₃) : Later s₁ s₃ :=
  ⟨h.toStays.trans h'.toStays, h.objects.trans h'.objects⟩

theorem Bound.extends {a : Address} {b : Bindings} (h : Bound s a b) (hkeeps : s.Keeps s')
    (hextends : s.objects.Extends s'.objects) : Bound s' a b :=
  ⟨h.self, h.wired, h.linked.extends hextends, fun hf => (h.imports hf).keeps hkeeps, h.exports⟩

/-- A store with more objects, and perhaps with new instances that are bound. -/
theorem Sound.extends (h : Sound s) (hkeeps : s.Keeps s')
    (hextends : s.objects.Extends s'.objects)
    (hinstances : ∀ {a : Address} {b : Bindings}, s'.bindings? a = some b →
      s.bindings? a = some b ∨ Bound s' a b)
    (hslots : s'.objects.Slots (·.Genuine s')) : Sound s' := by
  refine ⟨fun {a b} hb => ?_, hslots⟩
  rcases hinstances hb with hb' | hbound
  · exact (h.instances hb').extends hkeeps hextends
  · exact hbound

theorem Sound.later (h : Sound s) (hlater : Later s s') : Sound s' := by
  refine h.extends hlater.keeps hlater.objects.extends
    (fun {a _} hb => .inl ((hlater.bindings a).symm.trans hb)) fun htable hslot => ?_
  rw [hlater.objects.tables] at htable
  exact (h.slots htable hslot).keeps hlater.keeps

/-! ### Instances by their addresses -/

theorem lt_size {a : Address} {i : Instance} (h : s.instance? a = some i) :
    a < s.instances.size := by
  refine Nat.lt_of_not_le fun hge => ?_
  rw [Store.instance?, Array.getElem?_eq_none hge] at h
  cases h

/-- The instance whose bindings and whose thread are known. -/
theorem exists_instance {a : Address} {b : Bindings} (h : s.bindings? a = some b) :
    ∃ i, s.instance? a = some i ∧ i.bindings = b ∧ s.thread? a = some i.thread := by
  obtain ⟨i, hi, hb⟩ := Option.map_eq_some_iff.mp h
  exact ⟨i, hi, hb, by rw [Store.thread?, hi]; rfl⟩

theorem instance?_modifyInstance (s : Store) (a a' : Address) (g : Instance → Instance) :
    (s.modifyInstance a g).instance? a' =
      if a' = a then (s.instance? a').map g else s.instance? a' := by
  simp only [Store.instance?, Store.modifyInstance, Array.getElem?_modify]
  by_cases h : a = a'
  · subst h
    rw [if_pos rfl, if_pos rfl]
    cases s.instances[a]? with
    | none => rfl
    | some i => rfl
  · rw [if_neg h, if_neg fun h' => h h'.symm]

/-- A change of an instance that leaves its bindings alone. -/
theorem later_modifyInstance (s : Store) (a : Address) {g : Instance → Instance}
    (hg : ∀ i, (g i).bindings = i.bindings) : Later s (s.modifyInstance a g) := by
  refine ⟨⟨Array.size_modify .., fun a' => ?_⟩, Objects.later_refl _⟩
  rw [Store.bindings?, instance?_modifyInstance]
  split
  · rw [Option.map_map]
    exact Option.map_congr fun i _ => hg i
  · rfl

/-- A change of an instance that leaves its thread alone. -/
theorem thread?_modifyInstance (s : Store) (a : Address) {g : Instance → Instance}
    (hg : ∀ i, (g i).thread = i.thread) : (s.modifyInstance a g).thread? = s.thread? := by
  funext a'
  rw [Store.thread?, instance?_modifyInstance]
  split
  · rw [Option.map_map]
    exact Option.map_congr fun i _ => hg i
  · rfl

/-- The store after a part of an execution in an instance. -/
def settled (s : Store) (a : Address) (i : Instance) (x : Execution) : Store :=
  ⟨x.objects, s.instances.setIfInBounds a (some { i with thread := x.thread }), s.handles,
    s.events⟩

theorem instance?_settled {a : Address} {i : Instance} (h : s.instance? a = some i)
    (x : Execution) (a' : Address) : (settled s a i x).instance? a' =
      if a' = a then some { i with thread := x.thread } else s.instance? a' := by
  show ((s.instances.setIfInBounds a _)[a']?).join = _
  rw [Array.getElem?_setIfInBounds]
  by_cases ha : a = a'
  · subst ha
    rw [if_pos rfl, if_pos rfl, if_pos (lt_size h)]
    rfl
  · rw [if_neg ha, if_neg fun ha' => ha ha'.symm]
    rfl

theorem bindings?_settled {a : Address} {i : Instance} (h : s.instance? a = some i)
    (x : Execution) (a' : Address) : (settled s a i x).bindings? a' = s.bindings? a' := by
  rw [Store.bindings?, instance?_settled h]
  split
  · next ha =>
    subst ha
    rw [Store.bindings?, h]
    rfl
  · rfl

theorem stays_settled {a : Address} {i : Instance} (h : s.instance? a = some i) (x : Execution) :
    s.Stays (settled s a i x) :=
  ⟨Array.size_setIfInBounds .., bindings?_settled h x⟩

theorem later_settled {a : Address} {i : Instance} (h : s.instance? a = some i) {x : Execution}
    (hlater : s.objects.Later x.objects) : Later s (settled s a i x) :=
  ⟨stays_settled h x, hlater⟩

theorem thread?_settled {a : Address} {i : Instance} (h : s.instance? a = some i)
    (x : Execution) : (settled s a i x).thread? = s.thread?.put a x.thread := by
  funext a'
  rw [Store.thread?, instance?_settled h, Threads.put]
  split <;> rfl

/-- Running a part of an execution in the instance of an activation. -/
theorem run_eq {α : Type} {act : Activation} {i : Instance} (h : s.instance? act.self = some i)
    (part : Bindings → Execution.Step α) :
    act.run part s = match part i.bindings ⟨s.objects, i.thread⟩ with
      | .ok a x => .ok a (settled s act.self i x)
      | .error e x => .error e (settled s act.self i x) := by
  unfold Activation.run
  rw [h]
  rfl

/-- What a part has done that has succeeded. -/
theorem exists_of_run_ok {α : Type} {act : Activation} {part : Bindings → Execution.Step α} {r : α}
    {t : Store} (h : act.run part s = .ok r t) : ∃ i x, s.instance? act.self = some i ∧
      part i.bindings ⟨s.objects, i.thread⟩ = .ok r x ∧ t = settled s act.self i x := by
  cases hi : s.instance? act.self with
  | none =>
    unfold Activation.run at h
    rw [hi] at h
    cases h
  | some i =>
    rw [run_eq hi] at h
    cases hx : part i.bindings ⟨s.objects, i.thread⟩ with
    | ok r' x =>
      rw [hx] at h
      cases h
      exact ⟨i, x, rfl, hx, rfl⟩
    | error e x =>
      rw [hx] at h
      cases h

/-- Setting an instance free. -/
theorem later_release (s : Store) (act : Activation) : Later s (act.release s) := by
  unfold Activation.release
  split
  · exact later_modifyInstance s _ fun _ => rfl
  · exact later_refl s

theorem thread?_release (s : Store) (act : Activation) : (act.release s).thread? = s.thread? := by
  unfold Activation.release
  split
  · exact thread?_modifyInstance s _ fun _ => rfl
  · rfl

theorem later_undo (s : Store) (act : Activation) : Later s (act.undo s) :=
  later_modifyInstance s _ fun _ => rfl

/-- A failed activation leaves the thread as it has found it. -/
theorem thread?_undo {act : Activation} {t : Thread} (h : s.thread? act.self = some t)
    (habove : Above act.entry t) : (act.undo s).thread? = s.thread?.put act.self act.entry := by
  funext a
  rw [Store.thread?, Activation.undo, instance?_modifyInstance, Threads.put]
  split
  · next ha =>
    subst ha
    obtain ⟨i, hi, ht⟩ := Option.map_eq_some_iff.mp h
    rw [hi]
    show some (i.thread.cutBack act.entry) = _
    rw [ht, habove.cutBack]
  · rfl

/-! ### What is found in a store -/

theorem bindings?_of_idle? {a : Address} {b : Bindings} (h : s.idle? a = some b) :
    s.bindings? a = some b := by
  obtain ⟨i, hi, hbusy⟩ := Option.bind_eq_some_iff.mp h
  split at hbusy
  · cases hbusy
  · cases hbusy
    rw [Store.bindings?, hi]
    rfl

/-- A host function finds members in the module of the host that has called it, or in instances. -/
theorem memberOf_cases {caller : Caller} {target : Target} {name : String} {x : Member}
    (h : s.memberOf caller target name = some x) :
    (∃ m, caller = .native m ∧ m.member? name = some x) ∨
      ∃ a b, s.bindings? a = some b ∧ b.member? name = some x := by
  cases target with
  | caller =>
    cases caller with
    | native m => exact .inl ⟨m, rfl, h⟩
    | «instance» a =>
      obtain ⟨i, hi, hx⟩ := Option.bind_eq_some_iff.mp h
      refine .inr ⟨a, i.bindings, ?_, hx⟩
      rw [Store.bindings?, hi]
      rfl
  | handle n =>
    obtain ⟨b, hidle, hx⟩ := Option.bind_eq_some_iff.mp h
    obtain ⟨a, -, hidle⟩ := Option.bind_eq_some_iff.mp hidle
    exact .inr ⟨a, b, bindings?_of_idle? hidle, hx⟩

theorem slot_eq_some {a : Address} {index : UInt32} {f : FuncRef}
    (h : s.slot a index = .ok (some f)) :
    ∃ t, s.objects.tables[a]? = some t ∧ t.slots[index.toNat]? = some (some f) := by
  unfold Store.slot at h
  cases ht : s.objects.table a with
  | error e =>
    rw [ht] at h
    cases h
  | ok t =>
    rw [ht, Except.bind] at h
    refine ⟨t, Objects.table_eq_ok_iff.mp ht, ?_⟩
    cases hget : t.get index with
    | error e =>
      rw [hget] at h
      cases h
    | ok f' =>
      rw [hget] at h
      cases h
      unfold Table.get at hget
      split at hget
      · next slot hslot =>
        cases hget
        exact hslot
      · cases hget

/-- A function that a host function refers to is a member of the module of the host that has called
it, or an export of an instance, or it is in a table. -/
theorem funcAt_cases {caller : Caller} {source : FuncSource} {f : FuncRef}
    (h : s.funcAt caller source = some f) :
    (∃ m name, caller = .native m ∧ m.member? name = some (.func f)) ∨
      (∃ a b name, s.bindings? a = some b ∧ b.member? name = some (.func f)) ∨
      ∃ (a : Address) (t : Table) (i : Nat), s.objects.tables[a]? = some t ∧
        t.slots[i]? = some (some f) := by
  cases source with
  | member target name =>
    obtain ⟨x, hx, hf⟩ := Option.bind_eq_some_iff.mp h
    obtain rfl : x = .func f := by
      cases x with
      | func g => exact congrArg Member.func (Option.some.inj hf)
      | _ => cases hf
    rcases memberOf_cases hx with ⟨m, hm, hmember⟩ | ⟨a, b, hb, hmember⟩
    · exact .inl ⟨m, name, hm, hmember⟩
    · exact .inr (.inl ⟨a, b, name, hb, hmember⟩)
  | slot table index =>
    obtain ⟨a, -, hslot⟩ := Option.bind_eq_some_iff.mp h
    cases hget : s.slot a index with
    | error e =>
      rw [hget] at hslot
      cases hslot
    | ok g =>
      rw [hget] at hslot
      obtain rfl : g = some f := hslot
      obtain ⟨t, ht, hf⟩ := slot_eq_some hget
      exact .inr (.inr ⟨a, t, _, ht, hf⟩)

/-! ### What is found in a sound store -/

/-- What an instance gives away is genuine. -/
theorem genuine_funcRef? {a : Address} {b : Bindings} {x : UInt32} {f : FuncRef}
    (hbound : Bound s a b) (hb : s.bindings? a = some b) (hf : b.funcRef? x = some f) :
    f.Genuine s := by
  obtain ⟨g, hg, rfl⟩ := Option.map_eq_some_iff.mp hf
  have hx : b.func x = .ok g := by rw [Bindings.func, hg]
  cases g with
  | imported r => exact hbound.imports hx
  | defined type localCount body =>
    obtain ⟨i, hi, -⟩ := exists_instance hb
    refine ⟨?_, fun {b'} hb' => ⟨.defined type localCount body, ?_, rfl⟩⟩
    · rw [hbound.self]
      exact lt_size hi
    · rw [hbound.self] at hb'
      cases hb.symm.trans hb'
      exact hx

theorem Sound.genuine_member? {a : Address} {b : Bindings} {name : String} {x : Member}
    (h : Sound s) (hb : s.bindings? a = some b) (hx : b.member? name = some x) :
    x.Genuine s := by
  obtain ⟨e, -, hkind⟩ := Option.bind_eq_some_iff.mp hx
  cases hk : e.kind with
  | func =>
    rw [hk] at hkind
    obtain ⟨f, hf, rfl⟩ := Option.map_eq_some_iff.mp hkind
    exact genuine_funcRef? (h.instances hb) hb hf
  | _ =>
    rw [hk] at hkind
    obtain ⟨_, _, rfl⟩ := Option.map_eq_some_iff.mp hkind
    trivial

theorem genuine_provided? {p : Provider} {name : String} {x : Member} (hsound : Sound s)
    (hp : p.Genuine s) (hx : s.provided? p name = some x) : x.Genuine s := by
  cases p with
  | native m => exact hp hx
  | «instance» a =>
    obtain ⟨b, hidle, hmember⟩ := Option.bind_eq_some_iff.mp hx
    exact hsound.genuine_member? (bindings?_of_idle? hidle) hmember

theorem Sound.genuine_of_slot {a : Address} {index : UInt32} {f : FuncRef} (h : Sound s)
    (hslot : s.slot a index = .ok (some f)) : f.Genuine s := by
  obtain ⟨t, ht, hf⟩ := slot_eq_some hslot
  exact h.slots ht hf

/-- What a host function can refer to is genuine. -/
theorem Sound.genuine_funcAt {caller : Caller} {source : FuncSource} {f : FuncRef} (h : Sound s)
    (hcaller : caller.Genuine s) (hf : s.funcAt caller source = some f) : f.Genuine s := by
  rcases funcAt_cases hf with
    ⟨m, name, rfl, hmember⟩ | ⟨a, b, name, hb, hmember⟩ | ⟨a, t, i, ht, hslot⟩
  · exact hcaller hmember
  · exact h.genuine_member? hb hmember
  · exact h.slots ht hslot

/-- Requests put nothing but genuine references in tables. -/
theorem Sound.served (hsound : Sound s) (h : s.Served (·.Genuine s) s') : Sound s' := by
  have hstays := Store.stays_of_instances h.instances
  refine hsound.extends hstays.keeps h.changes.extends
    (fun hb => .inl ((hstays.bindings _).symm.trans hb)) fun htable hslot => ?_
  exact (h.changes.admits.slots hsound.slots htable hslot).keeps hstays.keeps

end Safety

end Wasm
