import Wasm.Proofs.Execution.Writes
import Wasm.Proofs.Safety.Steps

/-!
# Calls that leave an instance

What code leaves to be called is a function that its instance has imported, or one that stands in
its table at that time.  This needs no types: the code may be any.
-/

namespace Wasm

namespace Execution

open Safety (Reaches)
open Structured (Holds)

variable {α β : Type} {b : Bindings} {o : Objects} {c : Step α} {f : α → Step β}
  {x y : Execution} {P : α → Execution → Prop} {Q : β → Execution → Prop}

/-- A part of an execution, if it succeeds, comes to a certain value and a certain state. -/
structure Yields (P : α → Execution → Prop) (c : Step α) (x : Execution) : Prop where
  of_run : ∀ {a : α} {y : Execution}, c x = .ok a y → P a y

theorem yields_throw (e : Error) : Yields P (throw e) x :=
  ⟨fun h => nomatch h⟩

theorem yields_pure {a : α} (h : P a x) : Yields P (pure a) x := by
  refine ⟨fun hrun => ?_⟩
  cases hrun
  exact h

theorem yields_get {f : Execution → Step β} (h : Yields Q (f x) x) : Yields Q (get >>= f) x :=
  ⟨fun hrun => h.of_run hrun⟩

theorem yields_found {r : Except Trap α} (h : ∀ {a}, r = .ok a → Yields Q (f a) x) :
    Yields Q (orTrap r >>= f) x := by
  cases r with
  | ok a => exact h rfl
  | error t => exact yields_throw _

theorem Yields.bind (h : Yields P c x) (hf : ∀ a y, P a y → Yields Q (f a) y) :
    Yields Q (c >>= f) x := by
  refine ⟨fun {r z} hrun => ?_⟩
  cases hc : c x with
  | error e y =>
    rw [bind_error hc] at hrun
    cases hrun
  | ok a y =>
    rw [bind_ok hc] at hrun
    exact (hf a y (h.of_run hc)).of_run hrun

theorem Yields.rethrown {context : Error → Error} (h : Yields P c x) :
    Yields P (tryCatch c fun e => throw (context e)) x := by
  refine ⟨fun {a y} hrun => ?_⟩
  replace hrun : EStateM.tryCatch c _ x = .ok a y := hrun
  delta EStateM.tryCatch at hrun
  dsimp only at hrun
  cases hc : c x with
  | ok a' y' =>
    rw [hc] at hrun
    cases hrun
    exact h.of_run hc
  | error e y' =>
    rw [hc] at hrun
    cases hrun

/-- Whatever comes before. -/
theorem yields_bind (hf : ∀ a y, Yields Q (f a) y) : Yields Q (c >>= f) x :=
  Yields.bind (P := fun _ _ => True) ⟨fun _ => trivial⟩ fun a y _ => hf a y

/-- No code changes a table. -/
theorem Writing.yields (h : Writing c x) :
    Yields (fun _ y => y.objects.tables = x.objects.tables) c x := by
  refine ⟨fun {a y} hrun => ?_⟩
  unfold Writing at h
  rw [hrun] at h
  exact h.later.tables

/-- What an indirect call finds in the table of its instance. -/
theorem holds_of_get {a : Address} {table : Table} {k : UInt32} {g : FuncRef}
    (hat : b.tableAt = .ok a) (htable : o.table a = .ok table) (hget : table.get k = .ok (some g)) :
    Holds b o g := by
  unfold Bindings.tableAt at hat
  unfold Table.get at hget
  split at hat
  · next ha =>
    split at hget
    · next hslot =>
      cases hat
      cases hget
      exact ⟨a, table, k.toNat, ha, Objects.table_eq_ok_iff.mp htable, hslot⟩
    · cases hget
  · cases hat

theorem reaches_congr {o' : Objects} {g : FuncRef} (h : Reaches b o' g)
    (htables : o'.tables = o.tables) : Reaches b o g := by
  rcases h with hfunc | ⟨a, table, k, ha, htable, hslot⟩
  · exact .inl hfunc
  · exact .inr ⟨a, table, k, ha, htables ▸ htable, hslot⟩

/-- What is left to be called is imported or stands in the table. -/
def Sends (b : Bindings) (o : Objects) (sent : Option Call) : Prop :=
  ∀ {call : Call}, sent = some call → Reaches b o call.func

/-- What is left to be called is of a certain kind. -/
abbrev Leaving (S : FuncRef → Prop) (c : Step (Option Call)) (x : Execution) : Prop :=
  Yields (fun sent _ => ∀ {call : Call}, sent = some call → S call.func) c x

/-- An instance leaves nothing to be called but what it has imported, and what it finds in its table
and does not own. -/
structure Departs (b : Bindings) (o : Objects) (S : FuncRef → Prop) : Prop where
  imported : ∀ {k : UInt32} {g : FuncRef}, b.func k = .ok (.imported g) → S g
  held : ∀ {g : FuncRef}, Holds b o g → b.ownIndex? g = none → S g

theorem departs_reaches (b : Bindings) (o : Objects) : Departs b o (Reaches b o) :=
  ⟨fun hg => .inl ⟨_, hg⟩, fun hg _ => .inr hg⟩

section

variable {S : FuncRef → Prop}

theorem Departs.admits {o' : Objects} (h : Departs b o S) (hadmits : o.Admits S o') :
    Departs b o' S := by
  refine ⟨h.imported, fun {g} hg hown => ?_⟩
  obtain ⟨a, table', k, ha, htable', hslot⟩ := hg
  rcases hadmits htable' hslot with hg | ⟨table, htable, hslot⟩
  · exact hg
  · exact h.held ⟨a, table, k, ha, htable, hslot⟩ hown

theorem leaving_none : Leaving S (pure none) x :=
  yields_pure fun h => nomatch h

theorem leaving_leave {g : FuncRef} (hg : S g) : Leaving S (some <$> leave g) x := by
  have hleave : Yields (fun call _ => call.func = g) (leave g) x :=
    yields_bind fun _ _ => yields_found fun _ => yields_bind fun _ _ => yields_pure rfl
  refine Yields.bind (f := fun call => pure (some call)) hleave fun call y hcall => yields_pure ?_
  intro call' heq
  cases heq
  rw [hcall]
  exact hg

theorem leaving_call (h : Departs b o S) (index : UInt32) : Leaving S (call b index) x := by
  refine yields_found fun {g} hg => ?_
  cases g with
  | imported g => exact leaving_leave (h.imported hg)
  | defined type localCount body =>
    refine yields_get ?_
    show Yields _ (ite _ _ _) _
    split
    · exact yields_throw _
    · exact yields_bind fun _ _ => yields_found fun _ => yields_bind fun _ _ =>
        yields_bind fun _ _ => leaving_none

theorem leaving_callIndirect (h : Departs b x.objects S) (typeIndex : UInt32) :
    Leaving S (callIndirect b typeIndex) x := by
  refine writing_popU32.yields.bind fun slot y htables => yields_found fun {a} hat =>
    yields_get (yields_found fun {table} htable => yields_found fun {entry} hget => ?_)
  have h' : Departs b y.objects S := h.admits (Objects.admits_of_tables htables)
  cases entry with
  | none => exact yields_throw _
  | some g =>
    dsimp only
    split
    · exact yields_throw _
    · split
      · exact yields_throw _
      · split
        · exact leaving_call h' _
        · next hown => exact leaving_leave (h'.held (holds_of_get hat htable hget) hown)

theorem leaving_thenNone {c : Step Unit} : Leaving S (c >>= fun _ => pure none) x :=
  yields_bind fun _ _ => leaving_none

theorem leaving_execute (h : Departs b x.objects S) (i : Instr) : Leaving S (execute b i) x := by
  unfold execute
  split
  · exact yields_throw _
  · exact leaving_thenNone
  · exact leaving_thenNone
  · exact yields_bind fun _ _ => leaving_thenNone
  · exact leaving_thenNone
  · refine yields_bind fun condition _ => ?_
    by_cases hcondition : condition ≠ 0
    · rw [if_pos hcondition]
      exact leaving_thenNone
    · rw [if_neg hcondition]
      exact leaving_none
  · exact yields_bind fun _ _ => leaving_thenNone
  · exact leaving_thenNone
  · exact leaving_call h _
  · exact leaving_callIndirect h _
  · exact leaving_thenNone

end

end Execution

namespace Activation

open Execution

variable {b : Bindings} {o : Objects} {x : Execution} {S : FuncRef → Prop}

theorem leaving_advance (h : Departs b x.objects S) :
    Yields (fun sent _ => ∀ {call : Call}, sent.map Prod.fst = some call → S call.func)
      (advance b) x := by
  refine yields_get ?_
  cases x.thread.frames.items with
  | nil => exact yields_throw _
  | cons f _ =>
    dsimp only
    cases f.rest with
    | nil => exact yields_bind fun _ _ => yields_pure fun h => nomatch h
    | cons i rest =>
      refine yields_get ((writing_setFrames _).yields.bind fun _ y htables => ?_)
      have h' : Departs b y.objects S := h.admits (Objects.admits_of_tables htables)
      refine (leaving_execute h' i).rethrown.bind fun sent _ hsends => yields_pure ?_
      intro call hcall
      cases sent with
      | none => cases hcall
      | some sent =>
        cases hcall
        exact hsends rfl

theorem leaving_enter (h : Departs b o S) (index : UInt32) (args : List Value) :
    Leaving S (enter index args b) x :=
  yields_bind fun _ _ => yields_found fun _ => yields_bind fun _ _ => leaving_call h index

theorem yields_advance :
    Yields (fun sent _ => Sends b x.objects (sent.map Prod.fst)) (advance b) x :=
  leaving_advance (departs_reaches b x.objects)

theorem sending_enter (index : UInt32) (args : List Value) :
    Yields (fun sent _ => Sends b o sent) (enter index args b) x :=
  leaving_enter (departs_reaches b o) index args

end Activation

end Wasm
