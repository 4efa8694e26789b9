import Mathlib.Logic.Relation
import Wasm.Proofs.Typing.Rules
import Wasm.Validation.Function

/-!
# What a check says about types

The check of a body keeps operands of known and of unknown type, and pops from below the height of
a frame give unknown ones once the frame cannot be reached any more.  So a state of the check stands
for many stacks of types at once: `Admits` says which.

A check is read as a relation between the types before and after.  `Effect Γ c R` says that the
check `c`, in frames that `Γ` describes, computes `R`: if it succeeds then the stacks that are
admitted afterwards are exactly those that `R` leads to from an admitted one, and if it fails then
`R` leads nowhere.  In both cases it leaves everything below the height of the frame alone.
Effects of checks in a row compose (`Effect.bind`), so the effect of an instruction is put together
from those of a few pops and pushes.

Stacks of types have the top first here, as the operands of the check have.
-/

namespace Wasm.Typing

open Validation (Operand State Check)

/-! ### Stacks that operands stand for -/

/-- The stacks of types that the operands of a frame stand for.  Below the operands there is nothing
else, or anything if the frame cannot be reached. -/
def Admits : List Operand → Bool → List ValueType → Prop
  | [], unreachable, ts => unreachable = true ∨ ts = []
  | _ :: _, _, [] => False
  | o :: os, unreachable, t :: ts => (o = none ∨ o = some t) ∧ Admits os unreachable ts

@[simp] theorem admits_nil {unreachable : Bool} {ts : List ValueType} :
    Admits [] unreachable ts ↔ unreachable = true ∨ ts = [] := by
  cases ts <;> rfl

@[simp] theorem not_admits_cons_nil {o : Operand} {os : List Operand} {unreachable : Bool} :
    ¬ Admits (o :: os) unreachable [] := id

@[simp] theorem admits_cons_cons {o : Operand} {os : List Operand} {unreachable : Bool}
    {t : ValueType} {ts : List ValueType} :
    Admits (o :: os) unreachable (t :: ts) ↔ (o = none ∨ o = some t) ∧ Admits os unreachable ts :=
  Iff.rfl

/-- Operands always stand for some stack. -/
theorem exists_admits (os : List Operand) (unreachable : Bool) : ∃ ts, Admits os unreachable ts := by
  induction os with
  | nil => exact ⟨[], by simp⟩
  | cons o os ih =>
    obtain ⟨ts, hts⟩ := ih
    cases o with
    | none => exact ⟨.i32 :: ts, by simp [hts]⟩
    | some t => exact ⟨t :: ts, by simp [hts]⟩

theorem admits_map_some_append {os : List Operand} {unreachable : Bool}
    {known ts : List ValueType} :
    Admits (known.map some ++ os) unreachable ts ↔
      ∃ below, ts = known ++ below ∧ Admits os unreachable below := by
  induction known generalizing ts with
  | nil => simp
  | cons k known ih =>
    cases ts with
    | nil => simp
    | cons t ts =>
      simp only [List.map_cons, List.cons_append, admits_cons_cons, reduceCtorEq,
        Option.some.injEq, false_or, ih, List.cons.injEq]
      constructor
      · rintro ⟨rfl, below, rfl, h⟩
        exact ⟨below, ⟨rfl, rfl⟩, h⟩
      · rintro ⟨below, ⟨rfl, rfl⟩, h⟩
        exact ⟨rfl, below, rfl, h⟩

/-! ### Relations on stacks of types -/

/-- The relation of something that takes `ps` from the top of the stack and leaves `rs` there. -/
def Arrow (ps rs : List ValueType) (ts us : List ValueType) : Prop :=
  ∃ below, ts = ps.reverse ++ below ∧ us = rs.reverse ++ below

theorem arrow_take {ps ts us : List ValueType} : Arrow ps [] ts us ↔ ts = ps.reverse ++ us := by
  constructor
  · rintro ⟨below, h, h'⟩
    rw [h, h', List.reverse_nil, List.nil_append]
  · intro h
    exact ⟨us, h, rfl⟩

theorem arrow_leave {rs ts us : List ValueType} : Arrow [] rs ts us ↔ us = rs.reverse ++ ts := by
  constructor
  · rintro ⟨below, h, h'⟩
    rw [h, h', List.reverse_nil, List.nil_append]
  · intro h
    exact ⟨ts, rfl, h⟩

/-- Taking some types and then leaving others. -/
theorem comp_arrow_take_leave (ps rs : List ValueType) :
    Relation.Comp (Arrow ps []) (Arrow [] rs) = Arrow ps rs := by
  funext ts us
  simp only [Relation.Comp, arrow_take, arrow_leave]
  rfl

/-- Taking types from the top, and then those under them. -/
theorem comp_arrow_take_take (ps qs : List ValueType) :
    Relation.Comp (Arrow qs []) (Arrow ps []) = Arrow (ps ++ qs) [] := by
  funext ts us
  simp [Relation.Comp, arrow_take]

/-! ### Effects -/

/-- The labels and the results of a context are those of the frames of the check. -/
def Context.Describes (Γ : Context) (frames : List Validation.Frame) : Prop :=
  Γ.labels = frames.map Validation.Frame.labelTypes ∧
    ((frames.getLast?.map Validation.Frame.endTypes).getD []) = Γ.results

theorem Context.Describes.setUnreachable {Γ : Context} {frame : Validation.Frame}
    {outer : List Validation.Frame} (h : Γ.Describes (frame :: outer)) (unreachable : Bool) :
    Γ.Describes ({ frame with unreachable } :: outer) := by
  refine ⟨by simpa [Validation.Frame.labelTypes] using h.1, ?_⟩
  rw [← h.2]
  cases outer <;> simp [List.getLast?_cons]

/-- The check computes the relation `R` between the types before and after it. -/
def Effect (Γ : Context) (c : Check Unit) (R : List ValueType → List ValueType → Prop) : Prop :=
  ∀ (frame : Validation.Frame) (outer : List Validation.Frame) (os base : List Operand),
    Γ.Describes (frame :: outer) → base.length = frame.height →
    (∃ os' unreachable,
      c ⟨os ++ base, frame :: outer⟩ = .ok ((), ⟨os' ++ base, { frame with unreachable } :: outer⟩) ∧
        ∀ us, Admits os' unreachable us ↔ ∃ ts, Admits os frame.unreachable ts ∧ R ts us) ∨
    (∃ e, c ⟨os ++ base, frame :: outer⟩ = .error e ∧
      ∀ ts us, Admits os frame.unreachable ts → ¬ R ts us)

variable {Γ : Context} {c d : Check Unit} {R S : List ValueType → List ValueType → Prop}

theorem Effect.congr (h : Effect Γ c R) (hRS : ∀ ts us, R ts us ↔ S ts us) : Effect Γ c S := by
  have : R = S := funext fun ts => funext fun us => propext (hRS ts us)
  exact this ▸ h

theorem check_bind_ok {α β : Type} {c : Check α} {f : α → Check β} {s s' : State} {a : α}
    (h : c s = .ok (a, s')) : (c >>= f) s = f a s' := by
  show (c s).bind _ = _
  rw [h]
  rfl

theorem check_bind_error {α β : Type} {c : Check α} {f : α → Check β} {s : State} {e : Error}
    (h : c s = .error e) : (c >>= f) s = .error e := by
  show (c s).bind _ = _
  rw [h]
  rfl

/-- Checks in a row compute the composition of their relations. -/
theorem Effect.bind (hc : Effect Γ c R) (hd : Effect Γ d S) :
    Effect Γ (c >>= fun _ => d) (Relation.Comp R S) := by
  intro frame outer os base hΓ hbase
  rcases hc frame outer os base hΓ hbase with ⟨os', u', hrun, hR⟩ | ⟨e, hrun, hR⟩
  · rw [check_bind_ok hrun]
    rcases hd _ outer os' base (hΓ.setUnreachable u') hbase with
      ⟨os'', u'', hrun', hS⟩ | ⟨e, hrun', hS⟩
    · refine .inl ⟨os'', u'', hrun', fun us => ?_⟩
      rw [hS us]
      constructor
      · rintro ⟨mid, hmid, hmu⟩
        obtain ⟨ts, hts, htm⟩ := (hR mid).mp hmid
        exact ⟨ts, hts, mid, htm, hmu⟩
      · rintro ⟨ts, hts, mid, htm, hmu⟩
        exact ⟨mid, (hR mid).mpr ⟨ts, hts, htm⟩, hmu⟩
    · refine .inr ⟨e, hrun', ?_⟩
      rintro ts us hts ⟨mid, htm, hmu⟩
      exact hS mid us ((hR mid).mpr ⟨ts, hts, htm⟩) hmu
  · refine .inr ⟨e, check_bind_error hrun, ?_⟩
    rintro ts us hts ⟨mid, htm, -⟩
    exact hR ts mid hts htm

theorem effect_pure : Effect Γ (pure ()) Eq := by
  intro frame outer os base _ _
  refine .inl ⟨os, frame.unreachable, rfl, fun us => ?_⟩
  simp

theorem effect_throw (e : Error) (hR : ∀ ts us, ¬ R ts us) : Effect Γ (throw e) R := by
  intro frame outer os base _ _
  exact .inr ⟨e, rfl, fun ts us _ => hR ts us⟩

/-- A failing check may have any context put in front of its message. -/
theorem Effect.within (h : Effect Γ c R) (outer : Unit → String) :
    Effect Γ (Recorder.within outer c) R := by
  intro frame outerFrames os base hΓ hbase
  rcases h frame outerFrames os base hΓ hbase with ⟨os', u', hrun, hR⟩ | ⟨e, hrun, hR⟩
  · refine .inl ⟨os', u', ?_, hR⟩
    show withContext outer (c _) = _
    rw [hrun]
    rfl
  · refine .inr ⟨e.context (outer ()), ?_, hR⟩
    show withContext outer (c _) = _
    rw [hrun]
    rfl

/-- A check that looks something up. -/
theorem effect_orThrow {α : Type} {a : Option α} {e : Error} {f : α → Check Unit}
    (hsome : ∀ x, a = some x → Effect Γ (f x) R) (hnone : a = none → ∀ ts us, ¬ R ts us) :
    Effect Γ (Validation.orThrow a e >>= f) R := by
  cases a with
  | none => exact effect_throw e (hnone rfl)
  | some x => exact hsome x rfl

/-! ### Operands -/

theorem effect_pushAll (types : List ValueType) :
    Effect Γ (Validation.pushAll types) (Arrow [] types) := by
  intro frame outer os base _ _
  refine .inl ⟨types.reverse.map some ++ os, frame.unreachable, ?_, fun us => ?_⟩
  · show Except.ok ((), _) = _
    rw [List.append_assoc]
  · rw [admits_map_some_append]
    constructor
    · rintro ⟨below, rfl, h⟩
      exact ⟨below, h, arrow_leave.mpr rfl⟩
    · rintro ⟨ts, h, hR⟩
      exact ⟨ts, arrow_leave.mp hR, h⟩

theorem effect_push (t : ValueType) : Effect Γ (Validation.push (some t)) (Arrow [] [t]) :=
  effect_pushAll [t]

theorem pop_cons {frame : Validation.Frame} (outer : List Validation.Frame) (o : Operand)
    (os : List Operand) {base : List Operand} (hbase : base.length = frame.height) :
    Validation.pop ⟨o :: os ++ base, frame :: outer⟩ = .ok (o, ⟨os ++ base, frame :: outer⟩) := by
  have hne : os.length + base.length + 1 ≠ frame.height := by omega
  show (ite ((o :: os ++ base).length = frame.height) _ _ : Check Operand) _ = _
  rw [List.cons_append, List.length_cons, List.length_append, if_neg hne]
  rfl

/-- At the height of a frame that cannot be reached, popping gives an unknown operand. -/
theorem pop_unreachable {frame : Validation.Frame} (outer : List Validation.Frame)
    {base : List Operand} (hbase : base.length = frame.height) (hu : frame.unreachable = true) :
    Validation.pop ⟨base, frame :: outer⟩ = .ok (none, ⟨base, frame :: outer⟩) := by
  show (ite (base.length = frame.height) (ite (frame.unreachable = true) _ _) _ : Check Operand) _ = _
  rw [if_pos hbase, if_pos hu]
  rfl

theorem pop_underflow {frame : Validation.Frame} (outer : List Validation.Frame)
    {base : List Operand} (hbase : base.length = frame.height) (hu : frame.unreachable = false) :
    Validation.pop ⟨base, frame :: outer⟩ = .error Validation.underflow := by
  show (ite (base.length = frame.height) (ite (frame.unreachable = true) _ _) _ : Check Operand) _ = _
  rw [if_pos hbase, if_neg (by rw [hu]; exact Bool.false_ne_true)]
  rfl

/-- Popping gives the operand on top, or an unknown one at the height of a frame that cannot be
reached; only a frame that can be reached runs out of operands. -/
theorem pop_cases {frame : Validation.Frame} (outer : List Validation.Frame) (os : List Operand)
    {base : List Operand} (hbase : base.length = frame.height) :
    (∃ o os', Validation.pop ⟨os ++ base, frame :: outer⟩ = .ok (o, ⟨os' ++ base, frame :: outer⟩) ∧
      ∀ {t us}, Admits os frame.unreachable (t :: us) ↔
        (o = none ∨ o = some t) ∧ Admits os' frame.unreachable us) ∨
    (∃ e, Validation.pop ⟨os ++ base, frame :: outer⟩ = .error e ∧
      ∀ {ts}, Admits os frame.unreachable ts → ts = []) := by
  cases os with
  | cons o os => exact .inl ⟨o, os, pop_cons outer o os hbase, Iff.rfl⟩
  | nil =>
    cases hu : frame.unreachable with
    | true => exact .inl ⟨none, [], pop_unreachable outer hbase hu, by simp⟩
    | false => exact .inr ⟨_, pop_underflow outer hbase hu, by simp⟩

theorem effect_popExpect (t : ValueType) : Effect Γ (Validation.popExpect t) (Arrow [t] []) := by
  intro frame outer os base _ hbase
  rcases pop_cases outer os hbase with ⟨_ | actual, os', hpop, hadmits⟩ | ⟨e, hpop, hempty⟩
  · refine .inl ⟨os', frame.unreachable, check_bind_ok hpop, fun us => ?_⟩
    simp [arrow_take, hadmits]
  · have hrun : Validation.popExpect (M := Check) t ⟨os ++ base, frame :: outer⟩ = _ :=
      check_bind_ok hpop
    by_cases h : actual = t
    · refine .inl ⟨os', frame.unreachable, ?_, fun us => ?_⟩
      · rw [hrun]
        simp only [h, ne_eq, not_true_eq_false, if_false]
        rfl
      · simp [arrow_take, hadmits, h]
    · refine .inr ⟨Validation.typeMismatch t actual, ?_, fun ts us hts hR => ?_⟩
      · rw [hrun]
        simp only [ne_eq, h, not_false_eq_true, if_true]
        rfl
      · rw [arrow_take] at hR
        simp [hR, hadmits, h] at hts
  · refine .inr ⟨e, check_bind_error hpop, fun ts us hts hR => ?_⟩
    simp [arrow_take, hempty hts] at hR

theorem effect_popAll (types : List ValueType) :
    Effect Γ (Validation.popAll types) (Arrow types []) := by
  have key : ∀ l : List ValueType, Effect Γ (l.forM Validation.popExpect) (Arrow l.reverse []) := by
    intro l
    induction l with
    | nil => exact effect_pure.congr fun ts us => by simp [arrow_take]
    | cons t l ih =>
      have h := (effect_popExpect (Γ := Γ) t).bind ih
      rw [comp_arrow_take_take, ← List.reverse_cons] at h
      exact h
  have h := key types.reverse
  rw [List.reverse_reverse] at h
  exact h

/-- Nothing that follows can be reached: whatever was on the stack, anything may be there now. -/
theorem effect_setUnreachable : Effect Γ Validation.setUnreachable fun _ _ => True := by
  intro frame outer os base _ hbase
  refine .inl ⟨[], true, ?_, fun us => ?_⟩
  · show Except.ok ((), Validation.State.mk
      ((os ++ base).drop ((os ++ base).length - frame.height)) _) = _
    rw [← hbase, List.length_append, Nat.add_sub_cancel, List.drop_left]
    rfl
  · simpa using exists_admits os frame.unreachable

/-- Popping an operand of any type. -/
theorem effect_drop : Effect Γ (discard Validation.pop) fun ts us => ∃ t, ts = t :: us := by
  have hdiscard : (discard Validation.pop : Check Unit) = Validation.pop >>= fun _ => pure () := rfl
  rw [hdiscard]
  intro frame outer os base _ hbase
  rcases pop_cases outer os hbase with ⟨o, os', hpop, hadmits⟩ | ⟨e, hpop, hempty⟩
  · refine .inl ⟨os', frame.unreachable, check_bind_ok hpop, fun us => ?_⟩
    constructor
    · intro h
      obtain ⟨t, ht⟩ : ∃ t, o = none ∨ o = some t := by
        cases o with
        | none => exact ⟨.i32, .inl rfl⟩
        | some t => exact ⟨t, .inr rfl⟩
      exact ⟨t :: us, hadmits.mpr ⟨ht, h⟩, t, rfl⟩
    · rintro ⟨_, h, t, rfl⟩
      exact (hadmits.mp h).2
  · refine .inr ⟨e, check_bind_error hpop, fun ts us hts hR => ?_⟩
    obtain ⟨t, rfl⟩ := hR
    cases hempty hts

/-! ### Labels and blocks -/

theorem effect_labelTypes {depth : UInt32} {f : List ValueType → Check Unit}
    (hsome : ∀ label, Γ.labels[depth.toNat]? = some label → Effect Γ (f label) R)
    (hnone : Γ.labels[depth.toNat]? = none → ∀ ts us, ¬ R ts us) :
    Effect Γ (Validation.labelTypes depth >>= f) R := by
  intro frame outer os base hΓ hbase
  have hlabel : Γ.labels[depth.toNat]? =
      (frame :: outer)[depth.toNat]?.map Validation.Frame.labelTypes := by
    rw [hΓ.1, List.getElem?_map]
  cases hd : (frame :: outer)[depth.toNat]? with
  | none =>
    rw [hd] at hlabel
    refine .inr ⟨Validation.unknownLabel depth, check_bind_error ?_,
      fun ts us _ => hnone hlabel ts us⟩
    show ((Validation.orThrow (frame :: outer)[depth.toNat]? _ : Check _) _).bind _ = _
    rw [hd]
    rfl
  | some target =>
    rw [hd] at hlabel
    have hrun : Validation.labelTypes depth ⟨os ++ base, frame :: outer⟩ =
        .ok (target.labelTypes, ⟨os ++ base, frame :: outer⟩) := by
      show ((Validation.orThrow (frame :: outer)[depth.toNat]? _ : Check _) _).bind _ = _
      rw [hd]
      rfl
    rw [check_bind_ok hrun]
    exact hsome _ hlabel frame outer os base hΓ hbase

theorem effect_returnTypes {f : List ValueType → Check Unit} (h : Effect Γ (f Γ.results) R) :
    Effect Γ (Validation.returnTypes >>= f) R := by
  intro frame outer os base hΓ hbase
  have hrun : Validation.returnTypes ⟨os ++ base, frame :: outer⟩ =
      .ok (Γ.results, ⟨os ++ base, frame :: outer⟩) := by
    rw [← hΓ.2]
    rfl
  rw [check_bind_ok hrun]
  exact h frame outer os base hΓ hbase

/-- Checks a block whose parameters have been popped. -/
def enclosed (opcode : Opcode) (sig : FuncType) (body : Check Unit) : Check Unit := do
  Validation.pushFrame opcode sig
  body
  Validation.popFrame

/-- Leaving a block succeeds if the results are one of the stacks that the operands stand for. -/
theorem popFrame_run {frame : Validation.Frame} {outer : List Validation.Frame}
    {os base : List Operand} (hΓ : Γ.Describes (frame :: outer))
    (hbase : base.length = frame.height) :
    (Admits os frame.unreachable frame.endTypes.reverse →
      Validation.popFrame (M := Check) ⟨os ++ base, frame :: outer⟩ = .ok ((), ⟨base, outer⟩)) ∧
    (¬ Admits os frame.unreachable frame.endTypes.reverse →
      ∃ e, Validation.popFrame (M := Check) ⟨os ++ base, frame :: outer⟩ = .error e) := by
  have hunfold : Validation.popFrame (M := Check) ⟨os ++ base, frame :: outer⟩ =
      (Validation.popAll frame.endTypes >>= fun _ => do
        let frame ← Validation.current
        let count ← Validation.operandCount
        if count ≠ frame.height then
          throw (Validation.leftover (count - frame.height) frame.opcode)
        Validation.leave) ⟨os ++ base, frame :: outer⟩ := rfl
  rcases effect_popAll frame.endTypes frame outer os base hΓ hbase with
    ⟨os', u', hrun, hR⟩ | ⟨e, hrun, hR⟩
  · have hadmits : Admits os frame.unreachable frame.endTypes.reverse ↔ os' = [] := by
      have h := hR []
      simp only [arrow_take, List.append_nil, exists_eq_right] at h
      rw [← h]
      cases os' <;> simp
    rw [hadmits, hunfold, check_bind_ok hrun]
    constructor
    · rintro rfl
      show (ite (base.length ≠ frame.height) _ _ : Check Unit) _ = _
      rw [if_neg (not_not_intro hbase)]
      rfl
    · intro hne
      have hlen : os'.length + base.length ≠ frame.height := by
        have := List.length_pos_iff.mpr hne
        omega
      refine ⟨Validation.leftover (os'.length + base.length - frame.height) frame.opcode, ?_⟩
      rw [← List.length_append] at hlen ⊢
      show (ite ((os' ++ base).length ≠ frame.height) _ _ : Check Unit) _ = _
      rw [if_pos hlen]
      rfl
  · have hno : ¬ Admits os frame.unreachable frame.endTypes.reverse := fun h =>
      hR _ [] h (arrow_take.mpr (by simp))
    exact ⟨fun h => absurd h hno, fun _ => ⟨e, by rw [hunfold]; exact check_bind_error hrun⟩⟩

/-- A block leaves the operands around it alone, and is accepted if its body leads from its
parameters to its results. -/
theorem effect_enclosed {opcode : Opcode} {sig : FuncType} {body : Check Unit}
    (hbody : Effect (Γ.enter (if opcode = .loop then sig.params else sig.results)) body R) :
    Effect Γ (enclosed opcode sig body)
      fun ts us => ts = us ∧ R sig.params.reverse sig.results.reverse := by
  intro frame outer os base hΓ hbase
  let inner : Validation.Frame :=
    ⟨opcode, sig.params, sig.results, (os ++ base).length, false⟩
  have hdescribes : (Γ.enter (if opcode = .loop then sig.params else sig.results)).Describes
      (inner :: frame :: outer) := by
    refine ⟨?_, ?_⟩
    · rw [Context.labels_enter, hΓ.1]
      rfl
    · rw [Context.results_enter, ← hΓ.2, List.getLast?_cons_cons]
  have hpush : Validation.pushFrame (M := Check) opcode sig ⟨os ++ base, frame :: outer⟩ =
      .ok ((), ⟨sig.params.reverse.map some ++ (os ++ base), inner :: frame :: outer⟩) := rfl
  rw [enclosed, check_bind_ok hpush]
  have hparams : ∀ ts, Admits (sig.params.reverse.map some) false ts ↔ ts = sig.params.reverse := by
    intro ts
    have h := @admits_map_some_append [] false sig.params.reverse ts
    simpa using h
  rcases hbody inner (frame :: outer) _ (os ++ base) hdescribes rfl with
    ⟨os', u', hrun, hR⟩ | ⟨e, hrun, hR⟩
  · rw [check_bind_ok hrun]
    have hresults : Admits os' u' sig.results.reverse ↔ R sig.params.reverse sig.results.reverse := by
      rw [hR]
      show (∃ ts, Admits (sig.params.reverse.map some) false ts ∧ R ts sig.results.reverse) ↔ _
      simp only [hparams, exists_eq_left]
    obtain ⟨hok, herr⟩ := @popFrame_run _ _ _ os' _ (hdescribes.setUnreachable u') rfl
    by_cases h : R sig.params.reverse sig.results.reverse
    · refine .inl ⟨os, frame.unreachable, hok (hresults.mpr h), fun us => ?_⟩
      simp [h]
    · obtain ⟨e, he⟩ := herr (fun ha => h (hresults.mp ha))
      exact .inr ⟨e, he, fun _ _ _ hts => h hts.2⟩
  · refine .inr ⟨e, check_bind_error hrun, fun _ _ _ hts => ?_⟩
    exact hR _ _ ((hparams _).mpr rfl) hts.2

end Wasm.Typing
