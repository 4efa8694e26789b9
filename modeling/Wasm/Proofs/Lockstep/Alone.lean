import Wasm.Proofs.Isolation.Encapsulation
import Wasm.Proofs.Lockstep.Functions

/-!
# Instances that call nothing else

An instance without imported functions, whose table holds no function but its own, never leaves a
call to anyone else (`Store.Alone`).  So in a machine that has begun with a call of it nothing ever
waits (`Machine.Alone.within`).
-/

namespace Wasm

open Execution (Departs Yields)
open Safety (Moves Within)

/-- An instance that leaves no call to anyone else. -/
structure Store.Alone (s : Store) (a : Address) : Prop where
  departs : ∀ {b : Bindings}, s.bindings? a = some b → Departs b s.objects fun _ => False

/-- The table of an instance holds no function but its own. -/
def Bindings.OwnsTable (b : Bindings) (o : Objects) : Prop :=
  ∀ {g : FuncRef}, Structured.Holds b o g → b.ownIndex? g ≠ none

/-- What is done is done for one instance. -/
inductive Focus.For (a : Address) : Focus → Prop
  | wasm {act : Activation} (h : act.self = a) : Focus.For a (.wasm act)
  | call (caller : Caller) (type : FuncType) (index : UInt32) (args : List Value) :
      Focus.For a (.call caller ⟨.owned type a index, args⟩)
  | returned (r : Except Error (List Value)) : Focus.For a (.returned r)

/-- A machine in which an instance runs that calls nothing else. -/
structure Machine.Alone (a : Address) (m : Machine) : Prop where
  store : m.store.Alone a
  focus : m.focus.For a
  waiting : m.waiting = []

section

variable {s t : Store} {a : Address} {acts acts' : List Activation} {act : Activation}
  {m m' : Machine}

theorem Bindings.Assembled.departs {b : Bindings} {o : Objects} (h : b.Assembled)
    (hcount : b.module.importCount .func = 0) (hown : b.OwnsTable o) :
    Departs b o fun _ => False :=
  ⟨fun hg => h.func_ne hcount hg, fun hg hnone => hown hg hnone⟩

namespace Store.Alone

/-- Bindings do not change, and no functions are put in tables. -/
theorem moves (h : s.Alone a) (hmoves : Moves (fun _ => False) (s, acts) (t, acts')) :
    t.Alone a := by
  refine ⟨fun {b} hb => ?_⟩
  have hdeparts := h.departs ((hmoves.stays.bindings a).symm.trans hb)
  exact hdeparts.admits hmoves.changes.admits

/-- A part of an activation leaves no call. -/
theorem not_sent {α : Type} {part : Bindings → Execution.Step α} (sent : α → Option Call) {r : α}
    (h : s.Alone a) (hself : act.self = a)
    (hpart : ∀ {b : Bindings} {x : Execution}, (Departs b x.objects fun _ => False) →
      Yields (fun r _ => ∀ {call : Call}, sent r = some call → False) (part b) x)
    (hrun : act.run part s = .ok r t) : sent r = none := by
  obtain ⟨i, x, hi, hx, -⟩ := Safety.exists_of_run_ok hrun
  have hb : s.bindings? a = some i.bindings := by
    rw [← hself, Store.bindings?, hi]
    rfl
  cases hsent : sent r with
  | none => rfl
  | some call => exact ((hpart (h.departs hb)).of_run hx hsent).elim

end Store.Alone

namespace Machine

theorem alone_returned (h : s.Alone a) (r : Except Error (List Value)) :
    Alone a ⟨s, .returned r, []⟩ :=
  ⟨h, .returned r, rfl⟩

theorem alone_fail (h : s.Alone a) (act : Activation) (e : Error) : Alone a (fail s act e []) :=
  ⟨h.moves (Safety.moves_fail s act e []), .returned _, rfl⟩

theorem alone_invokeIndex (h : s.Alone a) (exclusive : Bool) (index : UInt32) (args : List Value) :
    Alone a (invokeIndex s a exclusive index args []) := by
  unfold invokeIndex
  cases hi : s.instance? a with
  | none => exact alone_returned h _
  | some i =>
    dsimp only
    have htake : Safety.Move (fun _ => False) (s, []) (_, [⟨a, [], i.thread, exclusive⟩]) :=
      .take [] exclusive hi
    have htaken := h.moves (.single htake)
    generalize (if exclusive = true then _ else s) = taken at htaken ⊢
    cases i.bindings.func index with
    | error e => exact alone_fail htaken ..
    | ok f =>
      dsimp only
      cases f.type.checkArgs (args.map Value.type) with
      | error e => exact alone_fail htaken ..
      | ok _ =>
        dsimp only
        split
        · next e u hrun =>
          exact alone_fail (htaken.moves (Safety.moves_run_error (.enter ..) [] hrun)) ..
        · next u hrun =>
          exact ⟨htaken.moves (Safety.moves_run_ok (.enter ..) [] hrun), .wasm rfl, rfl⟩
        · next call u hrun =>
          -- The function would have to be imported.
          cases htaken.not_sent id rfl (fun hb => Activation.leaving_enter hb index args) hrun

theorem alone_invokeExport (h : s.Alone a) (exclusive : Bool) (name : String) (args : List Value) :
    Alone a (invokeExport s a exclusive name args []) := by
  unfold invokeExport
  split
  · exact alone_returned h _
  · split
    · exact alone_returned h _
    · exact alone_invokeIndex h ..

theorem alone_invokeHandle (h : s.Alone a) (name : String) (args : List Value) :
    Alone a (invokeHandle s a name args []) := by
  unfold invokeHandle
  split
  · exact alone_returned h _
  · exact alone_invokeExport h ..

theorem alone_stepWasm (h : s.Alone a) (hself : act.self = a) : Alone a (stepWasm s act []) := by
  unfold stepWasm
  split
  · split
    · next e u hrun => exact alone_fail (h.moves (Safety.moves_run_error (.finish _) [] hrun)) ..
    · next values u hrun =>
      have hu := h.moves (Safety.moves_run_ok (.finish _) [] hrun)
      exact alone_returned (hu.moves (.single (.release u act []))) _
  · split
    · next e u hrun => exact alone_fail (h.moves (Safety.moves_run_error .advance [] hrun)) ..
    · next u hrun => exact ⟨h.moves (Safety.moves_run_ok .advance [] hrun), .wasm hself, rfl⟩
    · next call site u hrun =>
      cases h.not_sent (Option.map Prod.fst) hself Activation.leaving_advance hrun

theorem Alone.step (h : m.Alone a) : m.step.Alone a := by
  obtain ⟨s, focus, waiting⟩ := m
  obtain ⟨hstore, hfocus, rfl⟩ := h
  cases hfocus with
  | wasm hself => exact alone_stepWasm hstore hself
  | returned r => exact alone_returned hstore r
  | call caller type index args =>
    show Alone a (callRef s caller ⟨.owned type a index, args⟩ [])
    unfold callRef
    dsimp only
    split
    · exact alone_returned hstore _
    · exact alone_invokeIndex hstore ..

/-- Whatever becomes of the machine. -/
theorem Alone.within (h : m.Alone a) (hwithin : Within [] m m') : m'.Alone a := by
  induction hwithin with
  | refl => exact h
  | step _ _ ih => exact ih.step

end Machine

/-- However the machine ends, the instance is as it was. -/
theorem Machine.Alone.run {fuel : Nat} {r : Except Error (List Value)} (h : m.Alone a)
    (hrun : m.run fuel = some (r, t)) : t.Alone a :=
  (h.within (Safety.within_of_run hrun)).store

theorem Invocation.alone_begin (p : Invocation) (h : s.Alone a) : (p.begin s a).Alone a := by
  cases p with
  | named name args => exact Machine.alone_invokeHandle h ..
  | indexed index args => exact Machine.alone_invokeIndex h ..
  | referred caller type index args => exact ⟨h, .call .., rfl⟩

theorem Invocation.alone_run (p : Invocation) {fuel : Nat} {r : Except Error (List Value)}
    (h : s.Alone a) (hrun : p.run fuel s a = some (r, t)) : t.Alone a := by
  rw [p.run_eq_begin] at hrun
  exact (p.alone_begin h).run hrun

end

/-! ### New instances -/

namespace Instantiation.Linkage

variable {l : Linkage}

/-- A new instance without imported functions, whose table is its own. -/
theorem alone_link (hread : Binary.ConstantsRead l.module)
    (hvalid : Validation.module l.module = .ok ()) (hcount : l.module.importCount .func = 0)
    (hown : ∀ {b : Bindings}, l.link.2.bindings? l.store.instances.size = some b →
      b.OwnsTable l.link.2.objects) : l.link.2.Alone l.store.instances.size := by
  refine ⟨fun {b} hb => ?_⟩
  have hold : l.store.bindings? l.store.instances.size ≠ some b := by
    intro hold
    obtain ⟨i, hi, -⟩ := Safety.exists_instance hold
    exact Nat.lt_irrefl _ (Safety.lt_size hi)
  have hassembled := (assembled_link hread hvalid hb).resolve_left hold
  obtain ⟨-, hstands⟩ := ((leaves_link hread hvalid).bindings hb).resolve_left hold
  rw [← hstands.module] at hcount
  exact hassembled.departs hcount (hown hb)

end Instantiation.Linkage

/-- The instance that an instantiation leaves is as it was linked. -/
theorem Store.Alone.instantiate {s t : Store} {externals : Externals} {m : Module} {config : Config}
    {fuel : Nat} {a : Address} (h : (s.link externals m config).2.Alone s.instances.size)
    (hrun : s.instantiate fuel externals m config = some (.ok a, t)) : t.Alone a := by
  rw [Store.instantiate_eq] at hrun
  have hsize {a : Address} (ha : (s.link externals m config).1 = .ok a) : a = s.instances.size :=
    (Instantiation.Linkage.link_eq_ok (l := ⟨s, externals, m, config⟩) ha).2.1
  generalize s.link externals m config = r at h hsize hrun
  obtain ⟨result, u⟩ := r
  cases result with
  | error e => cases hrun
  | ok a' =>
    obtain rfl := hsize rfl
    unfold Store.afterLink Store.start at hrun
    cases hstart : m.start with
    | none =>
      rw [hstart] at hrun
      cases hrun
      exact h
    | some index =>
      rw [hstart] at hrun
      dsimp only at hrun
      cases hx : (Machine.invokeIndex u s.instances.size true index [] []).run fuel with
      | none =>
        rw [hx] at hrun
        cases hrun
      | some x =>
        rw [hx] at hrun
        obtain ⟨values | e, v⟩ := x
        · cases hrun
        · cases hrun
          exact (Machine.alone_invokeIndex h true index []).run hx

end Wasm
