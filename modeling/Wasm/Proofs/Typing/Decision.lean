import Wasm.Proofs.Typing.Plain

/-!
# The check decides the type system

`effect_instr` and `effect_sequence` extend `effect_flat` to all instructions: what the check of an
instruction or of a sequence computes is what the typing rules say about it.  The two are proved
together, since blocks contain sequences.  A body starts on the empty stack, so it is accepted if
and only if the rules type it: `function_eq_ok_iff_codeHasType`.
-/

namespace Wasm.Typing

open Validation (Check Scope)

/-- What a sequence may do to a stack of types, by the typing rules. -/
def SeqSteps (Γ : Context) (is : Expr) (ts us : List ValueType) : Prop :=
  SeqHasType Γ is ts.reverse us.reverse

theorem seqSteps_nil {Γ : Context} {ts us : List ValueType} : SeqSteps Γ [] ts us ↔ ts = us := by
  rw [SeqSteps, seqHasType_nil_iff, List.reverse_inj]

theorem seqSteps_cons {Γ : Context} {i : Instr} {rest : Expr} {ts us : List ValueType} :
    SeqSteps Γ (i :: rest) ts us ↔ Relation.Comp (Steps Γ i) (SeqSteps Γ rest) ts us := by
  rw [SeqSteps, seqHasType_cons_iff]
  constructor
  · rintro ⟨ws, ps, rs, hts, hfirst, hrest⟩
    refine ⟨rs.reverse ++ ws.reverse, ⟨ps, rs, hfirst, ws.reverse, ?_, rfl⟩, ?_⟩
    · rw [← List.reverse_append, ← hts, List.reverse_reverse]
    · simpa [SeqSteps] using hrest
  · rintro ⟨mid, ⟨ps, rs, hfirst, below, rfl, rfl⟩, hrest⟩
    exact ⟨below.reverse, ps, rs, by simp, hfirst, by simpa [SeqSteps] using hrest⟩
variable {Γ : Context}

/-! ### Blocks -/

/-- A block whose check is put together from that of its body. -/
theorem effect_block {opcode : Opcode} {sig : FuncType} {check : Check Unit} {body : Expr}
    (hbody : Effect (Γ.enter (if opcode = .loop then sig.params else sig.results)) check
      (SeqSteps (Γ.enter (if opcode = .loop then sig.params else sig.results)) body)) :
    Effect Γ (Validation.popAll sig.params >>= fun _ => enclosed opcode sig check >>= fun _ =>
        Validation.pushAll sig.results)
      fun ts us => SeqHasType (Γ.enter (if opcode = .loop then sig.params else sig.results)) body
        sig.params sig.results ∧ Arrow sig.params sig.results ts us := by
  refine ((effect_popAll sig.params).bind ((effect_enclosed hbody).bind
    (effect_pushAll sig.results))).congr fun ts us => ?_
  rw [← comp_arrow_take_leave sig.params sig.results]
  simp only [SeqSteps, List.reverse_reverse, Relation.Comp]
  constructor
  · rintro ⟨mid, htake, _, ⟨rfl, htyped⟩, hleave⟩
    exact ⟨htyped, mid, htake, hleave⟩
  · rintro ⟨htyped, mid, htake, hleave⟩
    exact ⟨mid, htake, mid, ⟨rfl, htyped⟩, hleave⟩

theorem effect_if {sig : FuncType} {thenCheck elseCheck : Check Unit} {thenBody elseBody : Expr}
    (hthen : Effect (Γ.enter sig.results) thenCheck (SeqSteps (Γ.enter sig.results) thenBody))
    (helse : Effect (Γ.enter sig.results) elseCheck (SeqSteps (Γ.enter sig.results) elseBody)) :
    Effect Γ (Validation.popExpect .i32 >>= fun _ => Validation.popAll sig.params >>= fun _ =>
        enclosed .ifElse sig thenCheck >>= fun _ => enclosed .ifElse sig elseCheck >>= fun _ =>
        Validation.pushAll sig.results)
      fun ts us => SeqHasType (Γ.enter sig.results) thenBody sig.params sig.results ∧
        SeqHasType (Γ.enter sig.results) elseBody sig.params sig.results ∧
        Arrow (sig.params ++ [.i32]) sig.results ts us := by
  have hthen := @effect_enclosed Γ _ .ifElse sig thenCheck hthen
  have helse := @effect_enclosed Γ _ .ifElse sig elseCheck helse
  refine ((effect_popExpect .i32).bind ((effect_popAll sig.params).bind (hthen.bind (helse.bind
    (effect_pushAll sig.results))))).congr fun ts us => ?_
  rw [← comp_arrow_take_leave (sig.params ++ [ValueType.i32]) sig.results,
    ← comp_arrow_take_take sig.params [ValueType.i32], Relation.comp_assoc]
  simp only [SeqSteps, List.reverse_reverse, Relation.Comp]
  constructor
  · rintro ⟨top, hcond, mid, htake, _, ⟨rfl, hthen⟩, _, ⟨rfl, helse⟩, hleave⟩
    exact ⟨hthen, helse, top, hcond, mid, htake, hleave⟩
  · rintro ⟨hthen, helse, top, hcond, mid, htake, hleave⟩
    exact ⟨top, hcond, mid, htake, mid, ⟨rfl, hthen⟩, mid, ⟨rfl, helse⟩, hleave⟩

mutual
/-- The check of an instruction computes what its typing rules say. -/
theorem effect_instr {Γ : Context} :
    ∀ {i : Instr}, Instr.Suited i → Effect Γ (Γ.scope.instr i) (Steps Γ i)
  | .plain op imm, .plain h => effect_flat h
  | .block _ type body, .block h => by
    unfold Scope.instr
    refine effect_orThrow (fun sig hsig => ?_) fun hnone ts us => not_steps (fun h => ?_) ts us
    · have hbody := effect_sequence (Γ := Γ.enter sig.results) h 0
      have he := @effect_block Γ .block sig _ body hbody
      simp only [enclosed, bind_assoc] at he
      refine he.congr fun ts us => ?_
      constructor
      · rintro ⟨htyped, harrow⟩
        exact ⟨sig.params, sig.results,
          .block (BlockType.resolve?_eq_some_iff.mp hsig) htyped, harrow⟩
      · rintro ⟨ps, rs, h, harrow⟩
        cases h with
        | block hsig' htyped =>
          cases hsig.symm.trans (BlockType.resolve?_eq_some_iff.mpr hsig')
          exact ⟨htyped, harrow⟩
    · cases h with
      | block hsig _ => cases hnone.symm.trans (BlockType.resolve?_eq_some_iff.mpr hsig)
  | .block _ type body, .loop h => by
    unfold Scope.instr
    refine effect_orThrow (fun sig hsig => ?_) fun hnone ts us => not_steps (fun h => ?_) ts us
    · have hbody := effect_sequence (Γ := Γ.enter sig.params) h 0
      have he := @effect_block Γ .loop sig _ body hbody
      simp only [enclosed, bind_assoc] at he
      refine he.congr fun ts us => ?_
      constructor
      · rintro ⟨htyped, harrow⟩
        exact ⟨sig.params, sig.results,
          .loop (BlockType.resolve?_eq_some_iff.mp hsig) htyped, harrow⟩
      · rintro ⟨ps, rs, h, harrow⟩
        cases h with
        | loop hsig' htyped =>
          cases hsig.symm.trans (BlockType.resolve?_eq_some_iff.mpr hsig')
          exact ⟨htyped, harrow⟩
    · cases h with
      | loop hsig _ => cases hnone.symm.trans (BlockType.resolve?_eq_some_iff.mpr hsig)
  | .ifElse _ type thenBody elseBody, .ifElse ht he => by
    unfold Scope.instr
    refine effect_orThrow (fun sig hsig => ?_) fun hnone ts us => not_steps (fun h => ?_) ts us
    · have hthen := effect_sequence (Γ := Γ.enter sig.results) ht 0
      have helse := (effect_sequence (Γ := Γ.enter sig.results) he 0).within fun _ => "else"
      have he := effect_if hthen helse
      simp only [enclosed, bind_assoc] at he
      refine he.congr fun ts us => ?_
      constructor
      · rintro ⟨hthen, helse, harrow⟩
        exact ⟨sig.params ++ [.i32], sig.results,
          .ifElse (BlockType.resolve?_eq_some_iff.mp hsig) hthen helse, harrow⟩
      · rintro ⟨ps, rs, h, harrow⟩
        cases h with
        | ifElse hsig' hthen helse =>
          cases hsig.symm.trans (BlockType.resolve?_eq_some_iff.mpr hsig')
          exact ⟨hthen, helse, harrow⟩
    · cases h with
      | ifElse hsig _ _ => cases hnone.symm.trans (BlockType.resolve?_eq_some_iff.mpr hsig)

/-- The check of a sequence computes what its typing says. -/
theorem effect_sequence {Γ : Context} :
    ∀ {is : Expr}, Instr.AllSuited is → ∀ k, Effect Γ (Γ.scope.sequence k is) (SeqSteps Γ is)
  | [], .nil, k => by
    unfold Scope.sequence
    exact effect_pure.congr fun ts us => seqSteps_nil.symm
  | i :: rest, .cons h hr, k => by
    unfold Scope.sequence
    refine (((effect_instr h).within _).bind (effect_sequence hr (k + 1))).congr fun ts us => ?_
    exact seqSteps_cons.symm
end

/-! ### Bodies -/

/-- What is checked in the frame of a body, on the empty stack, is accepted if it leads to the
results. -/
theorem body_ok_iff {c : Check Unit} {R : List ValueType → List ValueType → Prop}
    (hc : Effect Γ c R) (hlabels : Γ.labels = [Γ.results]) :
    (∃ r, (c >>= fun _ => Validation.popFrame) ⟨[], [⟨.call, [], Γ.results, 0, false⟩]⟩ = .ok r) ↔
      R [] Γ.results.reverse := by
  have hΓ : Γ.Describes [⟨.call, [], Γ.results, 0, false⟩] := ⟨hlabels, rfl⟩
  rcases hc ⟨.call, [], Γ.results, 0, false⟩ [] [] [] hΓ rfl with
    ⟨os, u, hrun, hR⟩ | ⟨e, hrun, hR⟩
  · rw [List.nil_append] at hrun
    have hadmits : Admits os u Γ.results.reverse ↔ R [] Γ.results.reverse := by
      rw [hR]
      simp
    obtain ⟨hok, herr⟩ := @popFrame_run _ _ _ os [] (hΓ.setUnreachable u) rfl
    rw [check_bind_ok hrun, ← hadmits]
    by_cases h : Admits os u Γ.results.reverse
    · exact iff_of_true ⟨_, hok h⟩ h
    · obtain ⟨e, he⟩ := herr h
      refine iff_of_false ?_ h
      rintro ⟨r, hr⟩
      exact absurd (he.symm.trans hr) (by simp)
  · rw [List.nil_append] at hrun
    rw [check_bind_error hrun]
    exact iff_of_false (by simp) (hR [] _ (by simp))

theorem map_fst_eq_ok_iff {r : Except Error (Unit × Validation.State)} :
    r.map Prod.fst = .ok () ↔ ∃ s, r = .ok s := by
  cases r with
  | error e => simp [Except.map]
  | ok s => simp [Except.map]

/-- The check of a body at a type of the module. -/
theorem function_at_type {m : Module} {typeIndex : UInt32} {type : FuncType} {code : Code}
    (htype : m.types[typeIndex.toNat]? = some type) (hsuited : Instr.AllSuited code.body) :
    Validation.function m typeIndex code = .ok () ↔ CodeHasType m type code := by
  let Γ : Context := .ofBody m (type.params ++ code.localTypes) type.results
  have hbody := body_ok_iff (effect_sequence (Γ := Γ) hsuited 0) rfl
  have htyped : CodeHasType m type code ↔ SeqSteps Γ code.body [] type.results.reverse := by
    rw [SeqSteps, List.reverse_reverse]
    rfl
  refine Iff.trans ?_ (hbody.trans htyped.symm)
  have hrun : Validation.body (M := Check) m typeIndex code ⟨[], []⟩ =
      (Γ.scope.sequence 0 code.body >>= fun _ => Validation.popFrame : Check Unit)
        ⟨[], [⟨.call, [], type.results, 0, false⟩]⟩ := by
    rw [Validation.body, htype]
    rfl
  rw [Validation.function, hrun]
  exact map_fst_eq_ok_iff

/-- A body that passes its check has a type to be checked at. -/
theorem exists_type_of_function {m : Module} {typeIndex : UInt32} {code : Code}
    (h : Validation.function m typeIndex code = .ok ()) :
    ∃ type, m.types[typeIndex.toNat]? = some type := by
  cases htype : m.types[typeIndex.toNat]? with
  | none =>
    rw [Validation.function, Validation.body, htype] at h
    cases h
  | some type => exact ⟨type, rfl⟩

/-- The check of a body accepts exactly the bodies that the rules type, at a type that the module
has. -/
theorem function_eq_ok_iff_codeHasType {m : Module} {typeIndex : UInt32} {code : Code}
    (hsuited : Instr.AllSuited code.body) :
    Validation.function m typeIndex code = .ok () ↔
      ∃ type, m.types[typeIndex.toNat]? = some type ∧ CodeHasType m type code := by
  constructor
  · intro h
    obtain ⟨type, htype⟩ := exists_type_of_function h
    exact ⟨type, htype, (function_at_type htype hsuited).mp h⟩
  · rintro ⟨type, htype, h⟩
    exact (function_at_type htype hsuited).mpr h

/-- Code that cannot be reached is typed by what it would take if it could: the condition of this
`select` has to be an `i32`, its alternatives are of no known type.  The block around it has the
signature with index `0`. -/
theorem codeHasType_dead_select :
    CodeHasType { types := [⟨[], [.f64]⟩] } ⟨[], [.f64]⟩
      ⟨[], [.block .block (.index 0) [.plain .unreachable .none,
        .plain (.const .i32) (.value (.i32 1)), .plain .select .none]]⟩ := by
  have hsuited : Instr.AllSuited [.block .block (.index 0) [.plain .unreachable .none,
      .plain (.const .i32) (.value (.i32 1)), .plain .select .none]] :=
    .cons (.block (.cons (.plain rfl) (.cons (.plain rfl) (.cons (.plain rfl) .nil)))) .nil
  obtain ⟨type, htype, h⟩ := (@function_eq_ok_iff_codeHasType { types := [⟨[], [.f64]⟩] } 0
    ⟨[], _⟩ hsuited).mp rfl
  obtain rfl := Option.some.inj htype
  exact h

end Wasm.Typing
