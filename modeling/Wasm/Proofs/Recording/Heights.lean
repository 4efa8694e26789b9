import Wasm.Proofs.Recording.Frames

/-!
# The heights of frames

A block is entered at the height that it finds, and it is left when the operands are back at this
height, so a block that has been left has restored everything (`block_restores`).  With this the
instructions with bodies follow their checks as well (`follows_instr`), and what holds of all
passages holds in every state of the check of a function: `frames_keep_heights`.
-/

namespace Wasm.Validation

open Recorded (Records records_throw records_step mem_record_bind bind_eq_ok result_bind_eq_ok)

variable {α β : Type} {base : List Operand} {frame : Frame} {outer : List Frame} {s t : State}
  {r : Passage α} {f : α → Passage β} (scope : Scope)

/-! ### Blocks -/

/-- The state in a block that has just been entered. -/
def State.opened (s : State) (opcode : Opcode) (type : FuncType) : State :=
  ⟨type.params.reverse.map some ++ s.operands,
    ⟨opcode, type.params, type.results, s.operands.length, false⟩ :: s.frames⟩

theorem mem_record_pushFrame {opcode : Opcode} {type : FuncType} :
    t ∈ (pushFrame opcode type : Passage Unit).record s ↔
      t = s ∨ t = ⟨type.params.reverse.map some ++ s.operands, s.frames⟩ ∨
        t = s.opened opcode type := by
  have hrecord : (pushFrame opcode type : Passage Unit).record s =
      [s, ⟨type.params.reverse.map some ++ s.operands, s.frames⟩, s.opened opcode type] := rfl
  simp [hrecord]

theorem records_pushFrame (opcode : Opcode) (type : FuncType) :
    Records (pushFrame opcode type : Passage Unit) (pushFrame opcode type) :=
  rfl

theorem orderly_pushFrame (opcode : Opcode) (type : FuncType) :
    Orderly (pushFrame opcode type) := by
  intro s hs
  have hopened : (s.opened opcode type).Ordered := hs.enter rfl _
  refine ⟨fun t ht => ?_, fun a t hrun => ?_⟩
  · rcases mem_record_pushFrame.mp ht with rfl | rfl | rfl
    · exact hs
    · exact hs.push _
    · exact hopened
  · cases hrun
    exact hopened

theorem orderly_leave : Orderly (liftM leave) :=
  orderly_liftM fun hrun hs => by
    cases hrun
    exact hs.leave

theorem follows_operandCount : Follows (liftM operandCount) (liftM operandCount) :=
  (steady_get.bind fun _ => steady_pure _).follows

theorem records_popFrame : Records Passage.popFrame popFrame := by
  refine steady_current.follows.records.bind fun opened => ?_
  refine (follows_popAll opened.endTypes).records.bind fun _ => ?_
  refine steady_current.follows.records.bind fun frame => ?_
  refine follows_operandCount.records.bind fun count => ?_
  have hleave : Records (liftM leave : Passage Unit) leave := records_step id leave
  dsimp only
  split
  · exact (records_throw _).bind fun _ => hleave
  · exact hleave

theorem orderly_popFrame : Orderly Passage.popFrame := by
  refine steady_current.follows.orderly.bind fun opened => ?_
  refine (follows_popAll opened.endTypes).orderly.bind fun _ => ?_
  refine steady_current.follows.orderly.bind fun frame => ?_
  refine follows_operandCount.orderly.bind fun count => ?_
  dsimp only
  split
  · exact (follows_throw _).orderly.bind fun _ => orderly_leave
  · exact orderly_leave

/-- What follows a contained passage starts in the same frame. -/
theorem Contained.andThen {P Q : State → Prop} (h : Contained r) (hbase : base.length = frame.height)
    (hs : s.Ends base frame outer) (hP : ∀ t, t.Keeps base frame outer → P t)
    (hf : ∀ a s₁, r.result s = .ok (a, s₁) → s₁.Ends base frame outer →
      (∀ t ∈ (f a).record s₁, P t) ∧ ∀ ⦃b t⦄, (f a).result s₁ = .ok (b, t) → Q t) :
    (∀ t ∈ (r >>= f).record s, P t) ∧ ∀ ⦃b t⦄, (r >>= f).result s = .ok (b, t) → Q t := by
  refine ⟨fun t ht => ?_, fun b t hrun => ?_⟩
  · rcases mem_record_bind.mp ht with ht | ⟨a, s₁, hr, ht⟩
    · exact hP t ((h hbase hs).1 t ht)
    · exact (hf a s₁ hr ((h hbase hs).2 hr)).1 t ht
  · obtain ⟨a, s₁, hr, hrest⟩ := result_bind_eq_ok.mp hrun
    exact (hf a s₁ hr ((h hbase hs).2 hr)).2 hrest

/-- A block that is left has no operands above its height any more, so that only what was below it
remains. -/
theorem popFrame_restores (hbase : base.length = frame.height) (hs : s.Ends base frame outer) :
    (∀ t ∈ Passage.popFrame.record s, t.Keeps base frame outer ∨ t = ⟨base, outer⟩) ∧
      ∀ ⦃u t⦄, Passage.popFrame.result s = .ok (u, t) → t = ⟨base, outer⟩ := by
  refine steady_current.follows.contained.andThen hbase hs (fun t h => .inl h) ?_
  intro opened s₁ _ h₁
  refine (follows_popAll opened.endTypes).contained.andThen hbase h₁ (fun t h => .inl h) ?_
  intro _ s₂ _ h₂
  refine steady_current.follows.contained.andThen hbase h₂ (fun t h => .inl h) ?_
  intro found s₃ hfound h₃
  refine follows_operandCount.contained.andThen hbase h₃ (fun t h => .inl h) ?_
  intro count s₄ hcount h₄
  obtain ⟨os, unreachable, rfl⟩ := h₂
  cases hfound
  cases hcount
  dsimp only
  split
  · refine ⟨fun t ht => absurd ht List.not_mem_nil, fun u t hrun => ?_⟩
    cases hrun
  · next heq =>
    have hos : os = [] := by
      rw [List.length_append, hbase, Decidable.not_not] at heq
      exact List.length_eq_zero_iff.mp (by omega)
    subst hos
    refine ⟨fun t ht => .inr (List.mem_singleton.mp ht), fun u t hrun => ?_⟩
    cases hrun
    rfl

variable {inside : Passage Unit} {inside' : Check Unit}

/-- After a block that has been entered and left again, everything is as it was before. -/
theorem block_restores {opcode : Opcode} {type : FuncType} {s₁ : State}
    (hbody : Contained inside) {u : Unit}
    (hrun : inside.result (s.opened opcode type) = .ok (u, s₁)) :
    (∀ t ∈ Passage.popFrame.record s₁, t.Keeps s.operands
        ⟨opcode, type.params, type.results, s.operands.length, false⟩ s.frames ∨ t = s) ∧
      ∀ ⦃u t⦄, Passage.popFrame.result s₁ = .ok (u, t) → t = s :=
  popFrame_restores rfl ((hbody rfl (ends_self _)).2 hrun)

/-- On the way through a block, and through what comes after it, nothing below the frame around it
changes. -/
theorem Contained.enclosed {next : Passage α} (hbody : Contained inside) (hnext : Contained next)
    (opcode : Opcode) (type : FuncType) :
    Contained (pushFrame opcode type >>= fun _ => inside >>= fun _ => Passage.popFrame >>= fun _ =>
      next) := by
  intro base frame outer s hbase hs
  have hopened : (s.opened opcode type).Ends s.operands _ s.frames := ends_self _
  refine ⟨fun t ht => ?_, fun a t hrun => ?_⟩
  · rcases mem_record_bind.mp ht with hentry | ⟨u, s₁, hpush, ht⟩
    · rcases mem_record_pushFrame.mp hentry with rfl | rfl | rfl
      · exact hs.keeps
      · exact (hs.push _).keeps
      · exact hopened.keeps.outwards hs
    · cases hpush
      rcases mem_record_bind.mp ht with hinner | ⟨u, s₂, hrun, ht⟩
      · exact ((hbody rfl hopened).1 t hinner).outwards hs
      · obtain ⟨hexit, hafter⟩ := block_restores hbody hrun
        rcases mem_record_bind.mp ht with hmem | ⟨u, s₃, hpop, hlater⟩
        · rcases hexit t hmem with hkeeps | rfl
          · exact hkeeps.outwards hs
          · exact hs.keeps
        · obtain rfl := hafter hpop
          exact (hnext hbase hs).1 t hlater
  · obtain ⟨u, s₁, hpush, hrun⟩ := result_bind_eq_ok.mp hrun
    cases hpush
    obtain ⟨u, s₂, hrun₂, hrun⟩ := result_bind_eq_ok.mp hrun
    obtain ⟨u, s₃, hpop, hlater⟩ := result_bind_eq_ok.mp hrun
    obtain rfl := (block_restores hbody hrun₂).2 hpop
    exact (hnext hbase hs).2 hlater

/-- A block follows its check if its body and what comes after it do. -/
theorem Follows.enclosed {next : Passage α} {next' : Check α} (hbody : Follows inside inside')
    (hnext : Follows next next') (opcode : Opcode) (type : FuncType) :
    Follows
      (pushFrame opcode type >>= fun _ => inside >>= fun _ => Passage.popFrame >>= fun _ => next)
      (pushFrame opcode type >>= fun _ => inside' >>= fun _ => popFrame >>= fun _ => next') := by
  refine ⟨?_, ?_, hbody.contained.enclosed hnext.contained opcode type⟩
  · refine (records_pushFrame opcode type).bind fun _ => ?_
    refine hbody.records.bind fun _ => ?_
    exact records_popFrame.bind fun _ => hnext.records
  · refine (orderly_pushFrame opcode type).bind fun _ => ?_
    refine hbody.orderly.bind fun _ => ?_
    exact orderly_popFrame.bind fun _ => hnext.orderly

/-! ### Instructions with bodies -/

theorem follows_block (hbody : Follows inside inside') (opcode : Opcode) (type : BlockType) :
    Follows (liftM (scope.blockSignature type) >>= fun sig => popAll sig.params >>= fun _ =>
        pushFrame opcode sig >>= fun _ => inside >>= fun _ => Passage.popFrame >>= fun _ =>
          liftM (pushAll sig.results))
      (liftM (scope.blockSignature type) >>= fun sig => popAll sig.params >>= fun _ =>
        pushFrame opcode sig >>= fun _ => inside' >>= fun _ => popFrame >>= fun _ =>
          liftM (pushAll sig.results)) := by
  refine (follows_orThrow ..).bind fun sig => ?_
  refine (follows_popAll sig.params).bind fun _ => ?_
  exact hbody.enclosed (follows_pushAll sig.results) opcode sig

mutual
/-- The passage of an instruction follows its check. -/
theorem follows_instr : ∀ i : Instr, Follows (Passage.instr scope i) (scope.instr i)
  | .plain op imm => by
    unfold Scope.instr
    exact follows_flat scope _
  | .block op type body => by
    have hbody := follows_sequence 0 body
    cases op
    case block | loop =>
      unfold Scope.instr
      exact follows_block scope hbody _ _
    all_goals
      unfold Scope.instr
      exact follows_flat scope _
  | .ifElse op type thenBody elseBody => by
    have hthen := follows_sequence 0 thenBody
    have helse := (follows_sequence 0 elseBody).within fun _ => "else"
    cases op
    case ifElse =>
      unfold Scope.instr
      refine (follows_orThrow ..).bind fun sig => ?_
      refine (follows_popExpect .i32).bind fun _ => ?_
      refine (follows_popAll sig.params).bind fun _ => ?_
      have hafter := helse.enclosed (follows_pushAll sig.results) .ifElse sig
      exact hthen.enclosed hafter .ifElse sig
    all_goals
      unfold Scope.instr
      exact follows_flat scope _

theorem follows_sequence : ∀ (index : Nat) (is : List Instr),
    Follows (scope.sequence index is) (scope.sequence index is)
  | _, [] => by
    unfold Scope.sequence
    exact follows_pure _
  | index, i :: rest => by
    unfold Scope.sequence
    refine ((follows_instr i).within _).bind fun _ => ?_
    exact follows_sequence (index + 1) rest
end

/-! ### What is left after an instruction with a body -/

/-- Popping takes operands from the top and does nothing else. -/
def Pops (c : Check α) : Prop :=
  ∀ ⦃s a t⦄, c s = .ok (a, t) → t.operands <:+ s.operands ∧ t.frames = s.frames

theorem pops_popExpect (expected : ValueType) : Pops (popExpect expected) := by
  intro s a t hrun
  obtain ⟨found, s₁, hpop, hrest⟩ := bind_eq_ok.mp hrun
  have hlooks : t = s₁ := by
    cases found with
    | none =>
      cases hrest
      rfl
    | some actual =>
      dsimp only at hrest
      split at hrest
      · cases hrest
      · cases hrest
        rfl
  subst hlooks
  rcases pop_eq_ok hpop with rfl | ⟨frame, outer, rest, rfl, -, rfl⟩
  · exact ⟨List.suffix_refl _, rfl⟩
  · exact ⟨List.suffix_cons .., rfl⟩

theorem pops_popAll (types : List ValueType) : Pops (popAll types) := by
  have hforM (l : List ValueType) : Pops (l.forM popExpect) := by
    induction l with
    | nil =>
      intro s a t hrun
      cases hrun
      exact ⟨List.suffix_refl _, rfl⟩
    | cons type l ih =>
      intro s a t hrun
      obtain ⟨u, s₁, hpop, hrest⟩ := bind_eq_ok.mp hrun
      obtain ⟨hoperands, hframes⟩ := pops_popExpect type hpop
      obtain ⟨hoperands', hframes'⟩ := ih hrest
      exact ⟨hoperands'.trans hoperands, hframes'.trans hframes⟩
  exact hforM _

/-- A block that is accepted has been left with everything as it was before. -/
theorem enclosed_eq_ok {body : Check Unit} {passage : Passage Unit} (hbody : Follows passage body)
    {opcode : Opcode} {type : FuncType} {next : Check α} {a : α}
    (h : (pushFrame opcode type >>= fun _ => body >>= fun _ => popFrame >>= fun _ => next) s =
      .ok (a, t)) : next s = .ok (a, t) := by
  obtain ⟨u, s₁, hpush, hinside⟩ := bind_eq_ok.mp h
  cases hpush
  obtain ⟨u, s₂, hrun, hexit⟩ := bind_eq_ok.mp hinside
  obtain ⟨u, s₃, hpop, hnext⟩ := bind_eq_ok.mp hexit
  rw [← hbody.records] at hrun
  rw [← records_popFrame] at hpop
  obtain rfl := (block_restores hbody.contained hrun).2 hpop
  exact hnext

/-- What is left where types have been popped, and a body has been accepted between. -/
def State.Leaves (types : List ValueType) (s popped t : State) : Prop :=
  popped.operands <:+ s.operands ∧ t = ⟨types.reverse.map some ++ popped.operands, s.frames⟩

/-- A block that is accepted leaves its results, and below them what popping its parameters has
left. -/
theorem block_leaves {opcode : Opcode} {type : BlockType} {body : Expr} {u : Unit}
    (hop : opcode = .block ∨ opcode = .loop)
    (h : scope.instr (M := Check) (.block opcode type body) s = .ok (u, t)) :
    ∃ sig s₁, type.resolve? scope.module.types = some sig ∧
      popAll (M := Check) sig.params s = .ok ((), s₁) ∧ s.Leaves sig.results s₁ t := by
  have hrun : (scope.blockSignature type >>= fun sig => popAll sig.params >>= fun _ =>
      pushFrame opcode sig >>= fun _ => scope.sequence 0 body >>= fun _ => popFrame >>= fun _ =>
        pushAll sig.results) s = .ok (u, t) := by
    rcases hop with rfl | rfl
    · unfold Scope.instr at h
      exact h
    · unfold Scope.instr at h
      exact h
  obtain ⟨sig, s₀, hsig, hrun⟩ := bind_eq_ok.mp hrun
  obtain ⟨hresolve, rfl⟩ := orThrow_eq_ok.mp hsig
  obtain ⟨u, s₁, hpop, hrun⟩ := bind_eq_ok.mp hrun
  obtain ⟨hoperands, hframes⟩ := pops_popAll _ hpop
  refine ⟨sig, s₁, hresolve, hpop, hoperands, ?_⟩
  cases enclosed_eq_ok (follows_sequence scope 0 body) hrun
  rw [← hframes]

/-- The same for an instruction with two arms, each of which starts where the other did. -/
theorem ifElse_leaves {type : BlockType} {thenBody elseBody : Expr} {u : Unit}
    (h : scope.instr (M := Check) (.ifElse .ifElse type thenBody elseBody) s = .ok (u, t)) :
    ∃ sig s₀ s₁, type.resolve? scope.module.types = some sig ∧
      popExpect (M := Check) .i32 s = .ok ((), s₀) ∧
      popAll (M := Check) sig.params s₀ = .ok ((), s₁) ∧ s.Leaves sig.results s₁ t := by
  unfold Scope.instr at h
  obtain ⟨sig, s', hsig, hrun⟩ := bind_eq_ok.mp h
  obtain ⟨hresolve, rfl⟩ := orThrow_eq_ok.mp hsig
  obtain ⟨u, s₀, hcondition, hrun⟩ := bind_eq_ok.mp hrun
  obtain ⟨u, s₁, hpop, hrun⟩ := bind_eq_ok.mp hrun
  obtain ⟨hoperands, hframes⟩ := pops_popExpect _ hcondition
  obtain ⟨hoperands', hframes'⟩ := pops_popAll _ hpop
  have hthen := follows_sequence scope 0 thenBody
  have helse := (follows_sequence scope 0 elseBody).within fun _ => "else"
  refine ⟨sig, s₀, s₁, hresolve, hcondition, hpop, hoperands'.trans hoperands, ?_⟩
  cases enclosed_eq_ok helse (enclosed_eq_ok hthen hrun)
  rw [← hframes, ← hframes']

/-! ### Bodies of functions -/

theorem records_body (m : Module) (typeIndex : UInt32) (code : Code) :
    Records (body m typeIndex code : Passage Unit) (body m typeIndex code) := by
  refine (follows_orThrow ..).records.bind fun type => ?_
  refine Records.bind (records_pushFrame ..) fun _ => ?_
  exact Records.bind (follows_sequence ..).records fun _ => records_popFrame

theorem orderly_body (m : Module) (typeIndex : UInt32) (code : Code) :
    Orderly (body m typeIndex code) := by
  refine (follows_orThrow ..).orderly.bind fun type => ?_
  refine Orderly.bind (orderly_pushFrame _ _) fun _ => ?_
  exact Orderly.bind (follows_sequence ..).orderly fun _ => orderly_popFrame

theorem function_ordered (m : Module) (typeIndex : UInt32) (code : Code) :
    (Passage.function m typeIndex code).2 = function m typeIndex code ∧
      ∀ t ∈ (Passage.function m typeIndex code).1, t.Ordered := by
  have hstart : State.Ordered ⟨[], []⟩ := ⟨.nil, fun f hf => absurd hf List.not_mem_nil⟩
  refine ⟨?_, (orderly_body m typeIndex code hstart).1⟩
  exact congrArg (Except.map Prod.fst) (congrFun (records_body m typeIndex code) ⟨[], []⟩)

/-- The operands below a height. -/
def State.below (s : State) (height : Nat) : List Operand :=
  s.operands.drop (s.operands.length - height)

theorem State.Ordered.ends (h : s.Ordered) (hframes : s.frames = frame :: outer) :
    (s.below frame.height).length = frame.height ∧ s.Ends (s.below frame.height) frame outer := by
  have hheight : frame.height ≤ s.operands.length :=
    h.covered frame (hframes ▸ List.mem_cons_self)
  constructor
  · rw [State.below, List.length_drop]
    exact Nat.sub_sub_self hheight
  · refine ⟨s.operands.take (s.operands.length - frame.height), frame.unreachable, ?_⟩
    rw [State.below, List.take_append_drop, ← hframes]

/-- **The heights of frames.**  Whatever the body of a function is, and also if its check fails, the
frames of every state on the way are in order and their heights are within the operands, so that the
number of operands that a block leaves over is a true one.  No instruction leaves the frame that it
stands in or changes anything below it, from the first state on its way to the last.  And a block
that is accepted leaves its results, and below them what popping its parameters has left. -/
theorem frames_keep_heights :
    (∀ (m : Module) (typeIndex : UInt32) (code : Code),
      (Passage.function m typeIndex code).2 = function m typeIndex code ∧
        ∀ s ∈ (Passage.function m typeIndex code).1, s.Ordered) ∧
    (∀ (scope : Scope) (i : Instr) {s : State} {frame : Frame} {outer : List Frame}, s.Ordered →
      s.frames = frame :: outer → (Passage.instr scope i).result s = scope.instr (M := Check) i s ∧
        (∀ t ∈ (Passage.instr scope i).record s,
          t.Ordered ∧ t.Keeps (s.below frame.height) frame outer) ∧
        ∀ {u t}, scope.instr (M := Check) i s = .ok (u, t) →
          t.Ordered ∧ t.Ends (s.below frame.height) frame outer) ∧
    (∀ (scope : Scope) {opcode : Opcode} {type : BlockType} {body : Expr} {s t : State} {u : Unit},
      opcode = .block ∨ opcode = .loop →
        scope.instr (M := Check) (.block opcode type body) s = .ok (u, t) →
        ∃ sig s₁, type.resolve? scope.module.types = some sig ∧
          popAll (M := Check) sig.params s = .ok ((), s₁) ∧ s.Leaves sig.results s₁ t) ∧
    ∀ (scope : Scope) {type : BlockType} {thenBody elseBody : Expr} {s t : State} {u : Unit},
      scope.instr (M := Check) (.ifElse .ifElse type thenBody elseBody) s = .ok (u, t) →
        ∃ sig s₀ s₁, type.resolve? scope.module.types = some sig ∧
          popExpect (M := Check) .i32 s = .ok ((), s₀) ∧
          popAll (M := Check) sig.params s₀ = .ok ((), s₁) ∧ s.Leaves sig.results s₁ t := by
  refine ⟨function_ordered, fun scope i s frame outer hs hframes => ?_,
    fun scope _ _ _ _ _ _ => block_leaves scope, fun scope _ _ _ _ _ _ => ifElse_leaves scope⟩
  obtain ⟨hrecords, horderly, hcontained⟩ := follows_instr scope i
  obtain ⟨hheight, hends⟩ := hs.ends hframes
  obtain ⟨horders, hordered⟩ := horderly hs
  obtain ⟨hkeeps, hleft⟩ := hcontained hheight hends
  refine ⟨congrFun hrecords s, fun t ht => ⟨horders t ht, hkeeps t ht⟩, fun {u t} hrun => ?_⟩
  rw [← congrFun hrecords s] at hrun
  exact ⟨hordered hrun, hleft hrun⟩

/-- A block above one operand, in the body of a function, with one operand of its own. -/
def midway : State :=
  ⟨[some .i32, some .i64], [⟨.block, [], [], 1, false⟩, ⟨.call, [], [], 0, false⟩]⟩

/-- A body that ends with an operand too many has passed through a state with two; in a block the
operand below stays, whether another block or an instruction with two arms is checked. -/
theorem midway_keeps_heights :
    (∃ e, function { types := [⟨[], []⟩] } 0 ⟨[], [.plain (.const .i64) (.value (.i64 0)),
        .plain (.const .i32) (.value (.i32 0))]⟩ = .error e) ∧
    State.Ordered ⟨[some .i32, some .i64], [⟨.call, [], [], 0, false⟩]⟩ ∧
    midway.Ordered ∧
    (∀ t ∈ (Passage.instr ⟨{}, []⟩ (.plain .drop .none)).record midway, t.Ordered ∧
      t.Keeps [some .i64] ⟨.block, [], [], 1, false⟩ [⟨.call, [], [], 0, false⟩]) ∧
    (∃ sig s₁, BlockType.resolve? (.value .i32) [] = some sig ∧
      popAll (M := Check) sig.params midway = .ok ((), s₁) ∧
      midway.Leaves sig.results s₁ ⟨[some .i32, some .i32, some .i64], midway.frames⟩) ∧
    ∃ sig s₀ s₁, BlockType.resolve? .empty [] = some sig ∧
      popExpect (M := Check) .i32 midway = .ok ((), s₀) ∧
      popAll (M := Check) sig.params s₀ = .ok ((), s₁) ∧
      midway.Leaves sig.results s₁ ⟨[some .i64], midway.frames⟩ := by
  obtain ⟨hfunction, hinstr, hblock, hifElse⟩ := frames_keep_heights
  have hmidway : midway.Ordered := ⟨by decide, by decide⟩
  have haccepted : Scope.instr (M := Check) ⟨{}, []⟩ (.block .block (.value .i32)
      [.plain (.const .i32) (.value (.i32 0))]) midway =
        .ok ((), ⟨[some .i32, some .i32, some .i64], midway.frames⟩) := rfl
  have harms : Scope.instr (M := Check) ⟨{}, []⟩ (.ifElse .ifElse .empty [] []) midway =
      .ok ((), ⟨[some .i64], midway.frames⟩) := rfl
  refine ⟨⟨_, rfl⟩, (hfunction { types := [⟨[], []⟩] } 0 ⟨[],
    [.plain (.const .i64) (.value (.i64 0)), .plain (.const .i32) (.value (.i32 0))]⟩).2 _
      (by decide), hmidway,
    (hinstr ⟨{}, []⟩ (.plain .drop .none) hmidway rfl).2.1, hblock _ (.inl rfl) haccepted,
    hifElse _ harms⟩

end Wasm.Validation
