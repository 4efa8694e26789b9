import Wasm.Proofs.Typing.Effect

/-!
# Instructions that open no block

`Steps Γ i` is what an instruction may do to a stack of types: what one of its typing rules says,
with any types below.  `effect_flat` says that the check of an instruction without a body computes
exactly this.  Most of these have a single type (`Effect.steps`); the others are those that nothing
can follow, whose rules leave the types below and above open, and `drop` and `select`, which work at
any type.

The only hypothesis is that the instruction carries the operands that its opcode asks for.
-/

namespace Wasm.Typing

open Validation (Check Scope)

/-- What the check of a body knows throughout. -/
def Context.scope (Γ : Context) : Scope :=
  ⟨Γ.module, Γ.locals⟩

/-- What an instruction may do to a stack of types, by the typing rules. -/
def Steps (Γ : Context) (i : Instr) (ts us : List ValueType) : Prop :=
  ∃ ps rs, HasType Γ i ps rs ∧ Arrow ps rs ts us

/-- An instruction that has one type only. -/
theorem steps_iff_arrow {Γ : Context} {i : Instr} {ps rs : List ValueType} (h : HasType Γ i ps rs)
    (huniq : ∀ {ps' rs'}, HasType Γ i ps' rs' → ps' = ps ∧ rs' = rs) (ts us : List ValueType) :
    Steps Γ i ts us ↔ Arrow ps rs ts us := by
  constructor
  · rintro ⟨ps', rs', h', harrow⟩
    obtain ⟨rfl, rfl⟩ := huniq h'
    exact harrow
  · intro harrow
    exact ⟨ps, rs, h, harrow⟩

/-- An instruction that has no type. -/
theorem not_steps {Γ : Context} {i : Instr} (h : ∀ {ps rs}, ¬ HasType Γ i ps rs)
    (ts us : List ValueType) : ¬ Steps Γ i ts us := by
  rintro ⟨ps, rs, h', -⟩
  exact h h'

variable {Γ : Context}

theorem Effect.steps {c : Check Unit} {i : Instr} {ps rs : List ValueType}
    (he : Effect Γ c (Arrow ps rs)) (h : HasType Γ i ps rs)
    (huniq : ∀ {ps' rs'}, HasType Γ i ps' rs' → ps' = ps ∧ rs' = rs) :
    Effect Γ c (Steps Γ i) :=
  he.congr fun ts us => (steps_iff_arrow h huniq ts us).symm

/-! ### Taking and leaving operands -/

/-- Taking the types of a signature and leaving its results. -/
theorem effect_popAll_pushAll (ps rs : List ValueType) :
    Effect Γ (Validation.popAll ps >>= fun _ => Validation.pushAll rs) (Arrow ps rs) := by
  have h := (effect_popAll (Γ := Γ) ps).bind (effect_pushAll rs)
  rwa [comp_arrow_take_leave] at h

/-- Taking one type and leaving another. -/
theorem effect_popExpect_push (t u : ValueType) :
    Effect Γ (Validation.popExpect t >>= fun _ => Validation.push (some u)) (Arrow [t] [u]) := by
  have h := (effect_popExpect (Γ := Γ) t).bind (effect_push u)
  rwa [comp_arrow_take_leave] at h

/-- The same with an index or a condition on top of the operands. -/
theorem effect_popExpect_popAll_pushAll (t : ValueType) (ps rs : List ValueType) :
    Effect Γ (Validation.popExpect t >>= fun _ => Validation.popAll ps >>= fun _ =>
      Validation.pushAll rs) (Arrow (ps ++ [t]) rs) := by
  refine ((effect_popExpect (Γ := Γ) t).bind (effect_popAll_pushAll ps rs)).congr fun ts us => ?_
  rw [← comp_arrow_take_leave ps rs, ← comp_arrow_take_leave (ps ++ [t]) rs,
    ← comp_arrow_take_take ps [t], Relation.comp_assoc]

/-- Giving up everything above some types: nothing that follows can be reached. -/
theorem effect_popAll_setUnreachable (ps : List ValueType) :
    Effect Γ (Validation.popAll ps >>= fun _ => Validation.setUnreachable)
      fun ts _ => ∃ below, ts = ps.reverse ++ below := by
  refine ((effect_popAll (Γ := Γ) ps).bind effect_setUnreachable).congr fun ts us => ?_
  simp [Relation.Comp, arrow_take]

/-! ### Loads, stores and numeric operators -/

/-- The check of a load, a store or a numeric operator follows its signature. -/
theorem flat_eq_of_signature {op : Opcode} {sig : FuncType} (hsig : op.signature? = some sig)
    (imm : Immediate) :
    Γ.scope.flat (.plain op imm) =
      ((match imm with
        | .memArg arg => Γ.scope.memoryAccess op arg
        | _ => pure ()) >>= fun _ =>
        Validation.popAll sig.params >>= fun _ => Validation.pushAll sig.results) := by
  cases op <;> simp only [Opcode.signature?, reduceCtorEq, Option.some.injEq] at hsig <;>
    subst hsig <;> cases imm <;> rfl

theorem effect_operator {op : Opcode} {sig : FuncType} (hwidth : op.accessBytes? = none)
    (hsig : op.signature? = some sig) :
    Effect Γ (Γ.scope.flat (.plain op .none)) (Steps Γ (.plain op .none)) := by
  rw [flat_eq_of_signature hsig]
  refine (effect_popAll_pushAll sig.params sig.results).congr fun ts us => ?_
  refine (steps_iff_arrow (.operator (Opcode.accessBytes?_eq_none_iff.mp hwidth) hsig)
    (fun h => ?_) ts us).symm
  cases h with
  | operator hwidth' hsig' =>
    rw [hsig, Option.some.injEq] at hsig'
    simp [hsig']
  | _ => simp [Opcode.signature?] at hsig

/-- An instruction that names something by its index, and takes and leaves what is found there. -/
theorem effect_lookup {α : Type} {a : Option α} {e : Error} {f : α → Check Unit} {i : Instr}
    {ps rs : α → List ValueType} (hf : ∀ x, Effect Γ (f x) (Arrow (ps x) (rs x)))
    (htype : ∀ x, a = some x → HasType Γ i (ps x) (rs x))
    (hfound : ∀ {ts us}, HasType Γ i ts us → ∃ x, a = some x ∧ ts = ps x ∧ us = rs x) :
    Effect Γ (Validation.orThrow a e >>= f) (Steps Γ i) := by
  refine effect_orThrow (fun x hx => ?_) fun hnone => not_steps fun h => ?_
  · refine (hf x).steps (htype x hx) fun h => ?_
    obtain ⟨x', hx', hts, hus⟩ := hfound h
    cases hx.symm.trans hx'
    exact ⟨hts, hus⟩
  · obtain ⟨x, hx, -⟩ := hfound h
    cases hnone.symm.trans hx

theorem effect_needsMemory {c : Check Unit} {R : List ValueType → List ValueType → Prop}
    (hc : 0 < Γ.module.count .memory → Effect Γ c R)
    (hno : ¬ 0 < Γ.module.count .memory → ∀ ts us, ¬ R ts us) :
    Effect Γ (Γ.scope.needsMemory >>= fun _ => c) R := by
  by_cases h : 0 < Γ.module.count .memory
  · have hrun : Γ.scope.needsMemory = (pure () : Check Unit) := by
      show (if Γ.module.count .memory = 0 then _ else _) = _
      rw [if_neg (by omega)]
    rw [hrun]
    exact hc h
  · have hrun : Γ.scope.needsMemory =
        (throw (Validation.unknownIndex Code.memoryIndex "memory" 0) : Check Unit) := by
      show (if Γ.module.count .memory = 0 then _ else _) = _
      rw [if_pos (by omega)]
    rw [hrun]
    exact effect_throw _ (hno h)

theorem accessBytes_le {op : Opcode} {width : Nat} (h : op.accessBytes? = some width) :
    width ≤ 8 := by
  cases op <;> simp only [Opcode.accessBytes?, Option.some.injEq, reduceCtorEq] at h <;> subst h
  case load t => cases t <;> decide
  case store t => cases t <;> decide
  case loadPart w p s => cases p <;> simp [Part.bytes]
  case storePart w p => cases p <;> simp [Part.bytes]

/-- The check of an alignment: a shift by 32 or more is never looked at. -/
theorem alignment_ok_iff {align : UInt32} {width : Nat} (h : width ≤ 8) :
    ¬ (32 ≤ align.toNat ∨ width < 1 <<< align.toNat) ↔ 2 ^ align.toNat ≤ width := by
  rw [Nat.shiftLeft_eq, Nat.one_mul]
  constructor
  · intro hno
    omega
  · rintro hle (h32 | hlt)
    · have : 2 ^ 32 ≤ 2 ^ align.toNat := Nat.pow_le_pow_right (by decide) h32
      omega
    · omega

theorem effect_memoryAccess {op : Opcode} {arg : MemArg} {width : Nat} {c : Check Unit}
    {R : List ValueType → List ValueType → Prop} (hwidth : op.accessBytes? = some width)
    (hc : 0 < Γ.module.count .memory → 2 ^ arg.align.toNat ≤ width → Effect Γ c R)
    (hno : ¬ (0 < Γ.module.count .memory ∧ 2 ^ arg.align.toNat ≤ width) → ∀ ts us, ¬ R ts us) :
    Effect Γ (Γ.scope.memoryAccess op arg >>= fun _ => c) R := by
  have hunfold : Γ.scope.memoryAccess op arg =
      (Γ.scope.needsMemory >>= fun _ =>
        if 32 ≤ arg.align.toNat ∨ width < 1 <<< arg.align.toNat then
          throw (Validation.invalidAlignment arg.align width) else pure ()) := by
    rw [Scope.memoryAccess, hwidth]
  rw [hunfold, bind_assoc]
  refine effect_needsMemory (fun hmemory => ?_) (fun hmemory => hno (fun h => hmemory h.1))
  have halign := @alignment_ok_iff arg.align width (accessBytes_le hwidth)
  by_cases h : 32 ≤ arg.align.toNat ∨ width < 1 <<< arg.align.toNat
  · rw [if_pos h]
    exact effect_throw _ (hno fun hboth => halign.mpr hboth.2 h)
  · rw [if_neg h, pure_bind]
    exact hc hmemory (halign.mp h)

theorem effect_access {op : Opcode} {arg : MemArg} {width : Nat} {sig : FuncType}
    (hwidth : op.accessBytes? = some width) (hsig : op.signature? = some sig) :
    Effect Γ (Γ.scope.flat (.plain op (.memArg arg))) (Steps Γ (.plain op (.memArg arg))) := by
  rw [flat_eq_of_signature hsig]
  refine effect_memoryAccess hwidth (fun hmemory halign => ?_) fun hnot ts us => not_steps ?_ ts us
  · refine (effect_popAll_pushAll sig.params sig.results).congr fun ts us => ?_
    have htouches := Opcode.accessBytes?_eq_some_iff.mp hwidth
    refine (steps_iff_arrow (.access htouches hsig hmemory halign) (fun h => ?_) ts us).symm
    cases h with
    | access hwidth' hsig' hmemory' halign' =>
      rw [hsig, Option.some.injEq] at hsig'
      simp [hsig']
  · intro ps rs h
    cases h with
    | access hwidth' hsig' hmemory' halign' =>
      rw [← Opcode.accessBytes?_eq_some_iff, hwidth, Option.some.injEq] at hwidth'
      subst hwidth'
      exact hnot ⟨hmemory', halign'⟩

theorem effect_truncSat (t : TruncSat) :
    Effect Γ (Γ.scope.flat (.plain .truncSat (.truncSat t)))
      (Steps Γ (.plain .truncSat (.truncSat t))) := by
  refine (effect_popAll_pushAll t.signature.params t.signature.results).steps .truncSat fun h => ?_
  cases h with
  | truncSat => exact ⟨rfl, rfl⟩

/-! ### Variables and memory -/

theorem effect_localGet (x : UInt32) :
    Effect Γ (Γ.scope.flat (.plain .localGet (.index x)))
      (Steps Γ (.plain .localGet (.index x))) := by
  refine effect_lookup effect_push (fun _ => .localGet) fun h => ?_
  cases h with
  | localGet ht => exact ⟨_, ht, rfl, rfl⟩

theorem effect_localSet (x : UInt32) :
    Effect Γ (Γ.scope.flat (.plain .localSet (.index x)))
      (Steps Γ (.plain .localSet (.index x))) := by
  refine effect_lookup effect_popExpect (fun _ => .localSet) fun h => ?_
  cases h with
  | localSet ht => exact ⟨_, ht, rfl, rfl⟩

theorem effect_localTee (x : UInt32) :
    Effect Γ (Γ.scope.flat (.plain .localTee (.index x)))
      (Steps Γ (.plain .localTee (.index x))) := by
  refine effect_lookup (fun t => effect_popExpect_push t t) (fun _ => .localTee) fun h => ?_
  cases h with
  | localTee ht => exact ⟨_, ht, rfl, rfl⟩

theorem effect_globalGet (x : UInt32) :
    Effect Γ (Γ.scope.flat (.plain .globalGet (.index x)))
      (Steps Γ (.plain .globalGet (.index x))) := by
  have hlookup := Γ.module.globalType?_eq x
  refine effect_lookup (fun t => effect_push t.valueType)
    (fun _ ht => .globalGet (hlookup.symm.trans ht)) fun h => ?_
  cases h with
  | globalGet ht => exact ⟨_, hlookup.trans ht, rfl, rfl⟩

theorem effect_globalSet (x : UInt32) :
    Effect Γ (Γ.scope.flat (.plain .globalSet (.index x)))
      (Steps Γ (.plain .globalSet (.index x))) := by
  have hlookup := Γ.module.globalType?_eq x
  refine effect_orThrow (fun t ht => ?_) fun hnone ts us => not_steps (fun h => ?_) ts us
  · replace ht := hlookup.symm.trans ht
    cases hm : t.isMutable with
    | true =>
      simp only [Bool.not_true, Bool.false_eq_true, if_false]
      refine (effect_popExpect t.valueType).steps (.globalSet ht hm) fun h => ?_
      cases h with
      | globalSet ht' _ =>
        obtain rfl := Option.some.inj (ht.symm.trans ht')
        exact ⟨rfl, rfl⟩
    | false =>
      simp only [Bool.not_false, if_true]
      refine effect_throw _ (not_steps fun h => ?_)
      cases h with
      | globalSet ht' hm' =>
        obtain rfl := Option.some.inj (ht.symm.trans ht')
        exact absurd (hm.symm.trans hm') (by simp)
  · cases h with
    | globalSet ht _ => exact absurd (hnone.symm.trans (hlookup.trans ht)) (by simp)

theorem effect_memorySize :
    Effect Γ (Γ.scope.flat (.plain .memorySize .none)) (Steps Γ (.plain .memorySize .none)) := by
  refine effect_needsMemory (fun hmemory => ?_) fun hno ts us => not_steps (fun h => ?_) ts us
  · refine (effect_push .i32).steps (.memorySize hmemory) fun h => ?_
    cases h with
    | memorySize _ => exact ⟨rfl, rfl⟩
    | operator _ hsig => simp [Opcode.signature?] at hsig
  · cases h with
    | memorySize hmemory => exact hno hmemory
    | operator _ hsig => simp [Opcode.signature?] at hsig

theorem effect_memoryGrow :
    Effect Γ (Γ.scope.flat (.plain .memoryGrow .none)) (Steps Γ (.plain .memoryGrow .none)) := by
  refine effect_needsMemory (fun hmemory => ?_) fun hno ts us => not_steps (fun h => ?_) ts us
  · refine (effect_popExpect_push .i32 .i32).steps (.memoryGrow hmemory) fun h => ?_
    cases h with
    | memoryGrow _ => exact ⟨rfl, rfl⟩
    | operator _ hsig => simp [Opcode.signature?] at hsig
  · cases h with
    | memoryGrow hmemory => exact hno hmemory
    | operator _ hsig => simp [Opcode.signature?] at hsig

/-! ### Calls and branches -/

theorem effect_call (f : UInt32) :
    Effect Γ (Γ.scope.flat (.plain .call (.index f))) (Steps Γ (.plain .call (.index f))) := by
  refine effect_lookup (fun type => effect_popAll_pushAll type.params type.results)
    (fun type htype => ?_) fun h => ?_
  · obtain ⟨t, hfunc, hsig⟩ := Module.funcType?_eq_some_iff.mp htype
    exact .call hfunc hsig
  · cases h with
    | call hfunc hsig =>
      exact ⟨_, Module.funcType?_eq_some_iff.mpr ⟨_, hfunc, hsig⟩, rfl, rfl⟩

theorem effect_callIndirect (t : UInt32) :
    Effect Γ (Γ.scope.flat (.plain .callIndirect (.typeIndex t)))
      (Steps Γ (.plain .callIndirect (.typeIndex t))) := by
  show Effect Γ (ite (Γ.module.count .table = 0) _ _) _
  by_cases htable : Γ.module.count .table = 0
  · rw [if_pos htable]
    refine effect_throw _ (not_steps fun h => ?_)
    cases h with
    | callIndirect htable' _ => omega
  · rw [if_neg htable]
    refine effect_lookup
      (fun type => effect_popExpect_popAll_pushAll .i32 type.params type.results)
      (fun _ => .callIndirect (by omega)) fun h => ?_
    cases h with
    | callIndirect _ htype => exact ⟨_, htype, rfl, rfl⟩

theorem effect_br (depth : UInt32) :
    Effect Γ (Γ.scope.flat (.plain .br (.index depth))) (Steps Γ (.plain .br (.index depth))) := by
  refine effect_labelTypes (fun label hlabel => ?_) fun hnone ts us => not_steps (fun h => ?_) ts us
  · refine (effect_popAll_setUnreachable label).congr fun ts us => ?_
    constructor
    · rintro ⟨below, rfl⟩
      exact ⟨below.reverse ++ label, us.reverse, .br hlabel, [], by simp, by simp⟩
    · rintro ⟨ps, rs, h, below, rfl, -⟩
      cases h with
      | @br _ _ label' above _ hlabel' =>
        obtain rfl := Option.some.inj (hlabel.symm.trans hlabel')
        exact ⟨above.reverse ++ below, by simp⟩
  · cases h with
    | br hlabel => exact absurd (hnone.symm.trans hlabel) (by simp)

theorem effect_brIf (depth : UInt32) :
    Effect Γ (Γ.scope.flat (.plain .brIf (.index depth)))
      (Steps Γ (.plain .brIf (.index depth))) := by
  cases hlabel : Γ.labels[depth.toNat]? with
  | none =>
    have hno : ∀ ts us, ¬ Steps Γ (.plain .brIf (.index depth)) ts us := not_steps fun h => by
      cases h with
      | brIf hlabel' => exact absurd (hlabel.symm.trans hlabel') (by simp)
    refine ((effect_popExpect .i32).bind (S := fun _ _ => False) (effect_labelTypes
      (fun label hlabel' => absurd (hlabel.symm.trans hlabel') (by simp))
      fun _ _ _ => id)).congr fun ts us => ?_
    simp [Relation.Comp, hno ts us]
  | some label =>
    have hrest : Effect Γ (Validation.labelTypes depth >>= fun types =>
        Validation.popAll types >>= fun _ => Validation.pushAll types) (Arrow label label) := by
      refine effect_labelTypes (fun types htypes => ?_) fun hnone =>
        absurd (hlabel.symm.trans hnone) (by simp)
      obtain rfl := Option.some.inj (hlabel.symm.trans htypes)
      exact effect_popAll_pushAll label label
    have he := (effect_popExpect (Γ := Γ) .i32).bind hrest
    rw [← comp_arrow_take_leave label label, ← Relation.comp_assoc, comp_arrow_take_take,
      comp_arrow_take_leave] at he
    refine he.steps (.brIf hlabel) fun h => ?_
    cases h with
    | brIf hlabel' =>
      obtain rfl := Option.some.inj (hlabel.symm.trans hlabel')
      exact ⟨rfl, rfl⟩

/-- A branch table: every label supplies what the default supplies. -/
theorem effect_labelsAgree {expected : List ValueType} {c : Check Unit}
    {R : List ValueType → List ValueType → Prop} (table : List UInt32)
    (hc : (∀ depth ∈ table, Γ.labels[depth.toNat]? = some expected) → Effect Γ c R)
    (hno : ¬ (∀ depth ∈ table, Γ.labels[depth.toNat]? = some expected) → ∀ ts us, ¬ R ts us) :
    Effect Γ (table.forM (Scope.labelAgrees expected) >>= fun _ => c) R := by
  induction table with
  | nil =>
    exact hc (by simp)
  | cons depth table ih =>
    show Effect Γ ((Scope.labelAgrees expected depth >>= fun _ =>
      table.forM (Scope.labelAgrees expected)) >>= fun _ => c) R
    rw [bind_assoc, Scope.labelAgrees, bind_assoc]
    refine effect_labelTypes (fun label hlabel => ?_) fun hlabel => hno fun hall => ?_
    · by_cases heq : label = expected
      · subst heq
        simp only [ne_eq, not_true_eq_false, if_false, pure_bind]
        refine ih (fun hall => hc ?_) fun hnot => hno fun hall => hnot ?_
        · simpa [hlabel] using hall
        · exact fun d hd => hall d (List.mem_cons_of_mem _ hd)
      · have hnot : ¬ ∀ d ∈ depth :: table, Γ.labels[d.toNat]? = some expected := by
          intro hall
          have := hall depth (by simp)
          rw [hlabel, Option.some.injEq] at this
          exact heq this
        by_cases hlen : label.length = expected.length
        · simp only [hlen, heq, ne_eq, not_true_eq_false, not_false_eq_true, if_true, if_false]
          exact effect_throw _ (hno hnot)
        · simp only [hlen, ne_eq, not_false_eq_true, if_true]
          exact effect_throw _ (hno hnot)
    · have := hall depth (by simp)
      rw [hlabel] at this
      simp at this

theorem effect_brTable (table : List UInt32) (default : UInt32) :
    Effect Γ (Γ.scope.flat (.plain .brTable (.labels table default)))
      (Steps Γ (.plain .brTable (.labels table default))) := by
  show Effect Γ (Scope.branchTable table default) _
  cases hdefault : Γ.labels[default.toNat]? with
  | none =>
    have hno : ∀ ts us, ¬ Steps Γ (.plain .brTable (.labels table default)) ts us :=
      not_steps fun h => by
        cases h with
        | brTable hdefault' _ => exact absurd (hdefault.symm.trans hdefault') (by simp)
    refine ((effect_popExpect .i32).bind (S := fun _ _ => False) (effect_labelTypes
      (fun label hlabel => absurd (hdefault.symm.trans hlabel) (by simp))
      fun _ _ _ => id)).congr fun ts us => ?_
    simp [Relation.Comp, hno ts us]
  | some label =>
    have hrest : Effect Γ (Validation.labelTypes default >>= fun expected =>
        table.forM (Scope.labelAgrees expected) >>= fun _ =>
          Validation.popAll expected >>= fun _ => Validation.setUnreachable)
        fun ts _ => (∀ depth ∈ table, Γ.labels[depth.toNat]? = some label) ∧
          ∃ below, ts = label.reverse ++ below := by
      refine effect_labelTypes (fun expected hexpected => ?_) fun hnone =>
        absurd (hdefault.symm.trans hnone) (by simp)
      obtain rfl := Option.some.inj (hdefault.symm.trans hexpected)
      refine effect_labelsAgree table (fun hall => ?_) fun hnot ts us h => hnot h.1
      exact (effect_popAll_setUnreachable label).congr fun ts us => ⟨fun h => ⟨hall, h⟩, And.right⟩
    refine ((effect_popExpect .i32).bind hrest).congr fun ts us => ?_
    constructor
    · rintro ⟨mid, hmid, hall, below, rfl⟩
      refine ⟨below.reverse ++ label ++ [.i32], us.reverse, .brTable hdefault hall, [], ?_, by simp⟩
      simpa using arrow_take.mp hmid
    · rintro ⟨ps, rs, h, below, rfl, -⟩
      cases h with
      | @brTable _ _ _ label' above _ hdefault' hall =>
        obtain rfl := Option.some.inj (hdefault.symm.trans hdefault')
        exact ⟨label.reverse ++ (above.reverse ++ below), arrow_take.mpr (by simp), hall,
          above.reverse ++ below, rfl⟩

theorem effect_ret : Effect Γ (Γ.scope.flat (.plain .ret .none)) (Steps Γ (.plain .ret .none)) := by
  refine effect_returnTypes ((effect_popAll_setUnreachable Γ.results).congr fun ts us => ?_)
  constructor
  · rintro ⟨below, rfl⟩
    exact ⟨below.reverse ++ Γ.results, us.reverse, .ret, [], by simp, by simp⟩
  · rintro ⟨ps, rs, h, below, rfl, -⟩
    cases h with
    | @ret _ above _ => exact ⟨above.reverse ++ below, by simp⟩
    | operator _ hsig => simp [Opcode.signature?] at hsig

theorem effect_unreachable :
    Effect Γ (Γ.scope.flat (.plain .unreachable .none)) (Steps Γ (.plain .unreachable .none)) :=
  effect_setUnreachable.congr fun ts us =>
    ⟨fun _ => ⟨ts.reverse, us.reverse, .unreachable, [], by simp, by simp⟩, fun _ => trivial⟩

/-! ### Operands of any type -/

theorem effect_nop : Effect Γ (Γ.scope.flat (.plain .nop .none)) (Steps Γ (.plain .nop .none)) := by
  have he : Effect Γ (pure ()) (Arrow [] []) := effect_pure.congr fun ts us => by simp [arrow_take]
  refine he.steps .nop fun h => ?_
  cases h with
  | nop => exact ⟨rfl, rfl⟩
  | operator _ hsig => simp [Opcode.signature?] at hsig

theorem effect_const (v : Value) :
    Effect Γ (Γ.scope.flat (.plain (.const v.type) (.value v)))
      (Steps Γ (.plain (.const v.type) (.value v))) := by
  refine (effect_push v.type).steps .const fun h => ?_
  generalize hop : Opcode.const v.type = op at h
  cases h with
  | const => exact ⟨rfl, rfl⟩

theorem effect_flat_drop :
    Effect Γ (Γ.scope.flat (.plain .drop .none)) (Steps Γ (.plain .drop .none)) := by
  refine effect_drop.congr fun ts us => ?_
  constructor
  · rintro ⟨t, rfl⟩
    exact ⟨[t], [], .drop, us, rfl, rfl⟩
  · rintro ⟨ps, rs, h, below, rfl, rfl⟩
    cases h with
    | @drop _ t => exact ⟨t, rfl⟩
    | operator _ hsig => simp [Opcode.signature?] at hsig

/-- The end of a selection, with both of its operands. -/
def choose (first second : Validation.Operand) : Check Unit := do
  match first, second with
  | some a, some b => if a ≠ b then throw (Validation.typeMismatch a b)
  | _, _ => pure ()
  Validation.push (first.or second)

theorem selection_eq :
    Scope.selection = Validation.popExpect .i32 >>= fun _ =>
      Validation.pop >>= fun first => Validation.pop >>= choose first :=
  rfl

/-- Two operands may have one type unless they are known to differ. -/
theorem choose_cases (first second : Validation.Operand) :
    (choose first second = Validation.push (first.or second) ∧
      ∀ t, first.or second = none ∨ first.or second = some t ↔
        (first = none ∨ first = some t) ∧ (second = none ∨ second = some t)) ∨
    (∃ e, choose first second = throw e ∧
      ∀ t, ¬ ((first = none ∨ first = some t) ∧ (second = none ∨ second = some t))) := by
  rcases first with _ | a <;> rcases second with _ | b
  · exact .inl ⟨rfl, by simp⟩
  · exact .inl ⟨rfl, by simp⟩
  · exact .inl ⟨rfl, by simp⟩
  · by_cases hab : a = b
    · refine .inl ⟨?_, by simp [hab]⟩
      simp only [choose, hab, ne_eq, not_true_eq_false, if_false]
    · refine .inr ⟨Validation.typeMismatch a b, ?_, ?_⟩
      · simp only [choose, hab, ne_eq, not_false_eq_true, if_true]
        rfl
      · rintro t ⟨hfirst, hsecond⟩
        simp only [reduceCtorEq, Option.some.injEq, false_or] at hfirst hsecond
        exact hab (hfirst.trans hsecond.symm)

/-- A choice between two operands of one type. -/
theorem effect_choose :
    Effect Γ (Validation.pop >>= fun first => Validation.pop >>= choose first)
      fun ts us => ∃ t below, ts = t :: t :: below ∧ us = t :: below := by
  intro frame outer os base _ hbase
  rcases pop_cases outer os hbase with ⟨first, os', hpop, hfirst⟩ | ⟨e, hpop, hempty⟩
  · rw [check_bind_ok hpop]
    rcases pop_cases outer os' hbase with ⟨second, os'', hpop', hsecond⟩ | ⟨e, hpop', hempty⟩
    · rw [check_bind_ok hpop']
      rcases choose_cases first second with ⟨hchoose, hone⟩ | ⟨e, hchoose, hnone⟩
      · refine .inl ⟨first.or second :: os'', frame.unreachable, by rw [hchoose]; rfl, fun us => ?_⟩
        constructor
        · intro hus
          obtain _ | ⟨t, below⟩ := us
          · cases hus
          · obtain ⟨ht, ht'⟩ := (hone t).mp hus.1
            exact ⟨t :: t :: below, hfirst.mpr ⟨ht, hsecond.mpr ⟨ht', hus.2⟩⟩, t, below, rfl, rfl⟩
        · rintro ⟨_, hts, t, below, rfl, rfl⟩
          obtain ⟨ht, hts'⟩ := hfirst.mp hts
          obtain ⟨ht', hbelow⟩ := hsecond.mp hts'
          exact ⟨(hone t).mpr ⟨ht, ht'⟩, hbelow⟩
      · refine .inr ⟨e, by rw [hchoose]; rfl, ?_⟩
        rintro _ _ hts ⟨t, below, rfl, -⟩
        obtain ⟨ht, hts'⟩ := hfirst.mp hts
        exact hnone t ⟨ht, (hsecond.mp hts').1⟩
    · refine .inr ⟨e, check_bind_error hpop', ?_⟩
      rintro _ _ hts ⟨t, below, rfl, -⟩
      cases hempty (hfirst.mp hts).2
  · refine .inr ⟨e, check_bind_error hpop, ?_⟩
    rintro _ _ hts ⟨t, below, rfl, -⟩
    cases hempty hts

/-- A selection between two operands of one type. -/
theorem effect_selection :
    Effect Γ Scope.selection
      fun ts us => ∃ t below, ts = .i32 :: t :: t :: below ∧ us = t :: below := by
  rw [selection_eq]
  refine Effect.congr ((effect_popExpect .i32).bind effect_choose) fun ts us => ?_
  simp only [Relation.Comp, arrow_take]
  constructor
  · rintro ⟨mid, hts, t, below, rfl, hus⟩
    exact ⟨t, below, hts, hus⟩
  · rintro ⟨t, below, hts, hus⟩
    exact ⟨t :: t :: below, hts, t, below, rfl, hus⟩

theorem effect_select :
    Effect Γ (Γ.scope.flat (.plain .select .none)) (Steps Γ (.plain .select .none)) := by
  refine effect_selection.congr fun ts us => ?_
  constructor
  · rintro ⟨t, below, rfl, rfl⟩
    exact ⟨[t, t, .i32], [t], .select, below, rfl, rfl⟩
  · rintro ⟨ps, rs, h, below, rfl, rfl⟩
    cases h with
    | @select _ t => exact ⟨t, below, rfl, rfl⟩
    | operator _ hsig => simp [Opcode.signature?] at hsig

/-! ### All of them -/

/-- The check of an instruction that opens no block computes what its typing rules say. -/
theorem effect_flat {op : Opcode} {imm : Immediate} (h : Instr.suits op imm = true) :
    Effect Γ (Γ.scope.flat (.plain op imm)) (Steps Γ (.plain op imm)) := by
  cases op <;> cases imm <;> try (cases h; done)
  case const.value t v =>
    obtain rfl := beq_iff_eq.mp h
    exact effect_const v
  all_goals
    first
      | exact effect_operator rfl rfl
      | exact effect_access rfl rfl
      | skip
  case unreachable.none => exact effect_unreachable
  case nop.none => exact effect_nop
  case br.index depth => exact effect_br depth
  case brIf.index depth => exact effect_brIf depth
  case brTable.labels table default => exact effect_brTable table default
  case ret.none => exact effect_ret
  case call.index f => exact effect_call f
  case callIndirect.typeIndex t => exact effect_callIndirect t
  case drop.none => exact effect_flat_drop
  case select.none => exact effect_select
  case localGet.index x => exact effect_localGet x
  case localSet.index x => exact effect_localSet x
  case localTee.index x => exact effect_localTee x
  case globalGet.index x => exact effect_globalGet x
  case globalSet.index x => exact effect_globalSet x
  case memorySize.none => exact effect_memorySize
  case memoryGrow.none => exact effect_memoryGrow
  case truncSat.truncSat t => exact effect_truncSat t

end Wasm.Typing
