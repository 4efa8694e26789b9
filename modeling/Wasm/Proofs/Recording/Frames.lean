import Wasm.Proofs.Recording.Validation

/-!
# Frames and operands

A frame remembers how many operands there were when it was entered.  Frames further in have been
entered later, so their heights only grow, and no height is above the number of operands
(`State.Ordered`).  While a frame is open, the operands below its height stay as they are
(`State.Keeps`), whatever blocks are entered and left inside it.

`Follows` says of a passage that this holds in all the states that it records, also if the check
fails in the end.  It follows the way in which passages are put together from single steps, which
are `Steady`: here up to the instructions that open no block.
-/

namespace Wasm.Validation

open Recorded (Records records_pure records_throw records_step mem_record_bind bind_eq_ok
  result_bind_eq_ok result_within_eq_ok mem_record_step result_step)

variable {α β : Type}

/-! ### States -/

/-- The heights of the frames do not decrease from the outermost frame inwards, and there are as
many operands as they say. -/
structure State.Ordered (s : State) : Prop where
  nested : s.frames.Pairwise fun inner outer => outer.height ≤ inner.height
  covered : ∀ f ∈ s.frames, f.height ≤ s.operands.length

/-- A frame is open, the frames around it are the given ones, and so are the operands below it. -/
def State.Keeps (base : List Operand) (frame : Frame) (outer : List Frame) (s : State) : Prop :=
  ∃ os inner unreachable, s = ⟨os ++ base, inner ++ { frame with unreachable } :: outer⟩

/-- The same, where the frame is the innermost one. -/
def State.Ends (base : List Operand) (frame : Frame) (outer : List Frame) (s : State) : Prop :=
  ∃ os unreachable, s = ⟨os ++ base, { frame with unreachable } :: outer⟩

variable {base : List Operand} {frame : Frame} {outer : List Frame} {s t : State}

theorem State.Ends.keeps (h : s.Ends base frame outer) : s.Keeps base frame outer := by
  obtain ⟨os, unreachable, rfl⟩ := h
  exact ⟨os, [], unreachable, rfl⟩

theorem ends_self (os : List Operand) : State.Ends base frame outer ⟨os ++ base, frame :: outer⟩ :=
  ⟨os, frame.unreachable, rfl⟩

/-- Operands are put on top. -/
theorem State.Ends.push (h : s.Ends base frame outer) (os : List Operand) :
    State.Ends base frame outer ⟨os ++ s.operands, s.frames⟩ := by
  obtain ⟨os', unreachable, rfl⟩ := h
  exact ⟨os ++ os', unreachable, by rw [List.append_assoc]⟩

/-- What is kept by a frame inside another is kept by the other. -/
theorem State.Keeps.outwards {inner : Frame} (h : t.Keeps s.operands inner s.frames)
    (hs : s.Ends base frame outer) : t.Keeps base frame outer := by
  obtain ⟨os, frames, unreachable, rfl⟩ := h
  obtain ⟨os', unreachable', rfl⟩ := hs
  refine ⟨os ++ os', frames ++ [{ inner with unreachable }], unreachable', ?_⟩
  rw [List.append_assoc, List.append_assoc]
  rfl

/-- More operands do no harm. -/
theorem State.Ordered.push (h : s.Ordered) (os : List Operand) :
    State.Ordered ⟨os ++ s.operands, s.frames⟩ := by
  refine ⟨h.nested, fun f hf => ?_⟩
  rw [List.length_append]
  exact Nat.le_add_left_of_le (h.covered f hf)

/-- A frame that is entered is above all others. -/
theorem State.Ordered.enter (h : s.Ordered) (hheight : frame.height = s.operands.length)
    (os : List Operand) : State.Ordered ⟨os ++ s.operands, frame :: s.frames⟩ := by
  refine ⟨List.pairwise_cons.mpr ⟨fun f hf => ?_, h.nested⟩, List.forall_mem_cons.mpr ⟨?_, ?_⟩⟩
  · rw [hheight]
    exact h.covered f hf
  · rw [hheight, List.length_append]
    exact Nat.le_add_left ..
  · exact (h.push os).covered

/-- As long as the operands reach the innermost frame, they reach all frames. -/
theorem State.Ordered.shorten (h : State.Ordered ⟨base, frame :: outer⟩) {os : List Operand}
    (hos : frame.height ≤ os.length) (unreachable : Bool) :
    State.Ordered ⟨os, { frame with unreachable } :: outer⟩ := by
  obtain ⟨habove, hnested⟩ := List.pairwise_cons.mp h.nested
  refine ⟨List.pairwise_cons.mpr ⟨habove, hnested⟩, List.forall_mem_cons.mpr ⟨hos, fun f hf => ?_⟩⟩
  exact Nat.le_trans (habove f hf) hos

theorem State.Ordered.leave (h : s.Ordered) : State.Ordered ⟨s.operands, s.frames.tail⟩ :=
  ⟨h.nested.tail, fun f hf => h.covered f (List.mem_of_mem_tail hf)⟩

/-! ### Steps -/

/-- A check that changes nothing below the innermost frame, and keeps the heights in order. -/
structure Steady (c : Check α) : Prop where
  ordered : ∀ {s t : State} {a : α}, c s = .ok (a, t) → s.Ordered → t.Ordered
  ends : ∀ {base : List Operand} {frame : Frame} {outer : List Frame} {s t : State} {a : α},
    c s = .ok (a, t) → base.length = frame.height → s.Ends base frame outer → t.Ends base frame outer

variable {c : Check α} {g : α → Check β}

/-- A check that only looks at the state. -/
theorem steady_of_looks (h : ∀ {s t : State} {a : α}, c s = .ok (a, t) → t = s) : Steady c := by
  constructor
  · intro s t a hrun hs
    rw [h hrun]
    exact hs
  · intro base frame outer s t a hrun _ hs
    rw [h hrun]
    exact hs

theorem Steady.bind (h : Steady c) (hg : ∀ a, Steady (g a)) : Steady (c >>= g) := by
  constructor
  · intro s t b hrun hs
    obtain ⟨a, s₁, hc, hrest⟩ := bind_eq_ok.mp hrun
    exact (hg a).ordered hrest (h.ordered hc hs)
  · intro base frame outer s t b hrun hbase hs
    obtain ⟨a, s₁, hc, hrest⟩ := bind_eq_ok.mp hrun
    exact (hg a).ends hrest hbase (h.ends hc hbase hs)

theorem steady_pure (a : α) : Steady (pure a : Check α) :=
  steady_of_looks fun h => by cases h; rfl

theorem steady_throw (e : Error) : Steady (throw e : Check α) :=
  steady_of_looks fun h => by cases h

theorem steady_get : Steady (get : Check State) :=
  steady_of_looks fun h => by cases h; rfl

theorem steady_ite {p : Prop} [Decidable p] {c' : Check α} (h : Steady c) (h' : Steady c') :
    Steady (if p then c else c') := by
  split
  · exact h
  · exact h'

theorem steady_guard {p : Prop} [Decidable p] {e : Error} {next : PUnit → Check α}
    (h : ∀ u, Steady (next u)) : Steady (if p then throw e >>= next else next ⟨⟩) :=
  steady_ite ((steady_throw e).bind h) (h _)

theorem steady_orThrow (a : Option α) (e : Error) : Steady (orThrow a e) := by
  cases a with
  | some a => exact steady_pure a
  | none => exact steady_throw e

theorem orThrow_eq_ok {o : Option α} {e : Error} {a : α} :
    orThrow o e s = .ok (a, t) ↔ o = some a ∧ s = t := by
  cases o with
  | none =>
    refine ⟨fun h => ?_, fun h => ?_⟩
    · cases h
    · cases h.1
  | some a' =>
    refine ⟨fun h => ?_, ?_⟩
    · cases h
      exact ⟨rfl, rfl⟩
    · rintro ⟨h, rfl⟩
      cases h
      rfl

theorem steady_current : Steady current :=
  steady_get.bind fun _ => steady_orThrow ..

theorem steady_labelTypes (depth : UInt32) : Steady (labelTypes depth) :=
  steady_get.bind fun _ => (steady_orThrow ..).bind fun _ => steady_pure _

theorem steady_returnTypes : Steady returnTypes :=
  steady_get.bind fun _ => steady_pure _

theorem steady_needsMemory (c : Scope) : Steady c.needsMemory :=
  steady_ite (steady_throw _) (steady_pure _)

theorem steady_memoryAccess (c : Scope) (opcode : Opcode) (arg : MemArg) :
    Steady (c.memoryAccess opcode arg) := by
  refine (steady_needsMemory c).bind fun _ => ?_
  cases opcode.accessBytes? with
  | none => exact steady_pure _
  | some width => exact steady_ite (steady_throw _) (steady_pure _)

theorem steady_labelAgrees (expected : List ValueType) (label : UInt32) :
    Steady (Scope.labelAgrees expected label) :=
  (steady_labelTypes label).bind fun _ => steady_guard fun _ =>
    steady_ite (steady_throw _) (steady_pure _)

/-- What is pushed is above everything else. -/
theorem steady_pushAll (types : List ValueType) : Steady (pushAll types) := by
  constructor
  · intro s t a hrun hs
    cases hrun
    exact hs.push _
  · intro base frame outer s t a hrun _ hs
    cases hrun
    exact hs.push _

theorem steady_push (o : Operand) : Steady (push o) := by
  constructor
  · intro s t a hrun hs
    cases hrun
    exact hs.push [o]
  · intro base frame outer s t a hrun _ hs
    cases hrun
    exact hs.push [o]

/-- Popping takes an operand from above the height of the innermost frame, or none. -/
theorem pop_eq_ok {o : Operand} (h : pop s = .ok (o, t)) : t = s ∨
    ∃ frame outer rest, s = ⟨o :: rest, frame :: outer⟩ ∧ rest.length + 1 ≠ frame.height ∧
      t = ⟨rest, frame :: outer⟩ := by
  obtain ⟨operands, frames⟩ := s
  cases frames with
  | nil => cases h
  | cons frame outer =>
    unfold pop at h
    obtain ⟨frame', s₁, hcurrent, h⟩ := bind_eq_ok.mp h
    cases hcurrent
    obtain ⟨s₁, s₂, hget, h⟩ := bind_eq_ok.mp h
    cases hget
    dsimp only at h
    split at h
    · split at h
      · cases h
        exact .inl rfl
      · cases h
    · next hne =>
      cases operands with
      | nil =>
        cases h
        exact .inl rfl
      | cons o' rest =>
        cases h
        exact .inr ⟨frame, outer, rest, rfl, hne, rfl⟩

theorem steady_pop : Steady pop := by
  constructor
  · intro s t o hrun hs
    rcases pop_eq_ok hrun with rfl | ⟨frame, outer, rest, rfl, hne, rfl⟩
    · exact hs
    · have hheight : frame.height ≤ rest.length + 1 := hs.covered frame List.mem_cons_self
      exact hs.shorten (by omega) frame.unreachable
  · intro base frame outer s t o hrun hbase hs
    rcases pop_eq_ok hrun with rfl | ⟨frame', outer', rest, rfl, hne, rfl⟩
    · exact hs
    · obtain ⟨os, unreachable, hs⟩ := hs
      obtain ⟨hoperands, hframes⟩ := State.mk.inj hs
      obtain ⟨rfl, rfl⟩ := List.cons.inj hframes
      cases os with
      | nil =>
        -- The height has been reached, so nothing was popped.
        rw [← hbase, ← List.nil_append base, ← hoperands] at hne
        exact absurd rfl hne
      | cons o' os =>
        obtain ⟨-, rfl⟩ := List.cons.inj hoperands
        exact ⟨os, unreachable, rfl⟩

/-- What is given up is above the height of the innermost frame. -/
theorem steady_setUnreachable : Steady setUnreachable := by
  constructor
  · rintro ⟨operands, _ | ⟨frame, outer⟩⟩ t a hrun hs
    · cases hrun
    · cases hrun
      have hheight : frame.height ≤ operands.length := hs.covered frame List.mem_cons_self
      refine hs.shorten ?_ true
      show frame.height ≤ (operands.drop (operands.length - frame.height)).length
      rw [List.length_drop]
      exact Nat.le_of_eq (Nat.sub_sub_self hheight).symm
  · rintro base frame outer _ t a hrun hbase ⟨os, unreachable, rfl⟩
    have hdrop : (os ++ base).drop ((os ++ base).length - frame.height) = base := by
      rw [← hbase, List.length_append, Nat.add_sub_cancel, List.drop_left]
    cases hrun
    exact ⟨[], true, congrArg (State.mk · _) hdrop⟩

/-! ### Passages -/

/-- A passage that keeps the heights in order on its way. -/
def Orderly (r : Passage α) : Prop :=
  ∀ ⦃s : State⦄, s.Ordered →
    (∀ t ∈ r.record s, t.Ordered) ∧ ∀ ⦃a t⦄, r.result s = .ok (a, t) → t.Ordered

/-- A passage that does not leave the frame that it starts in, and on its way changes nothing below
it. -/
def Contained (r : Passage α) : Prop :=
  ∀ ⦃base : List Operand⦄ ⦃frame : Frame⦄ ⦃outer : List Frame⦄ ⦃s : State⦄,
    base.length = frame.height → s.Ends base frame outer →
      (∀ t ∈ r.record s, t.Keeps base frame outer) ∧
        ∀ ⦃a t⦄, r.result s = .ok (a, t) → t.Ends base frame outer

variable {r : Passage α} {f : α → Passage β}

theorem Orderly.bind (h : Orderly r) (hf : ∀ a, Orderly (f a)) : Orderly (r >>= f) := by
  refine fun s hs => ⟨fun t ht => ?_, fun b t hrun => ?_⟩
  · rcases mem_record_bind.mp ht with ht | ⟨a, s₁, hr, ht⟩
    · exact (h hs).1 t ht
    · exact (hf a ((h hs).2 hr)).1 t ht
  · obtain ⟨a, s₁, hr, hrest⟩ := result_bind_eq_ok.mp hrun
    exact (hf a ((h hs).2 hr)).2 hrest

theorem Contained.bind (h : Contained r) (hf : ∀ a, Contained (f a)) : Contained (r >>= f) := by
  refine fun base frame outer s hbase hs => ⟨fun t ht => ?_, fun b t hrun => ?_⟩
  · rcases mem_record_bind.mp ht with ht | ⟨a, s₁, hr, ht⟩
    · exact (h hbase hs).1 t ht
    · exact (hf a hbase ((h hbase hs).2 hr)).1 t ht
  · obtain ⟨a, s₁, hr, hrest⟩ := result_bind_eq_ok.mp hrun
    exact (hf a hbase ((h hbase hs).2 hr)).2 hrest

theorem orderly_liftM (h : ∀ {s t : State} {a : α}, c s = .ok (a, t) → s.Ordered → t.Ordered) :
    Orderly (liftM c : Passage α) := by
  refine fun s hs => ⟨fun t ht => ?_, fun a t hrun => ?_⟩
  · obtain ⟨a, t, hrun, rfl⟩ := mem_record_step.mp ht
    exact h hrun hs
  · exact h ((result_step id c) ▸ hrun) hs

/-- A passage that does what its check does, keeps the heights in order, and is contained. -/
structure Follows (r : Passage α) (c : Check α) : Prop where
  records : Records r c
  orderly : Orderly r
  contained : Contained r

theorem Steady.follows (h : Steady c) : Follows (liftM c : Passage α) c := by
  refine ⟨records_step id c, orderly_liftM h.ordered,
    fun base frame outer s hbase hs => ⟨fun t ht => ?_, fun a t hrun => ?_⟩⟩
  · obtain ⟨a, t, hrun, rfl⟩ := mem_record_step.mp ht
    exact (h.ends hrun hbase hs).keeps
  · exact h.ends ((result_step id c) ▸ hrun) hbase hs

theorem follows_pure (a : α) : Follows (pure a : Passage α) (pure a) := by
  refine ⟨records_pure a, fun s hs => ⟨fun t ht => absurd ht List.not_mem_nil, fun a t hrun => ?_⟩,
    fun base frame outer s _ hs => ⟨fun t ht => absurd ht List.not_mem_nil, fun a t hrun => ?_⟩⟩
  · cases hrun
    exact hs
  · cases hrun
    exact hs

theorem follows_throw (e : Error) : Follows (throw e : Passage α) (throw e) := by
  refine ⟨records_throw e, fun s hs => ⟨fun t ht => absurd ht List.not_mem_nil, fun a t hrun => ?_⟩,
    fun base frame outer s _ hs => ⟨fun t ht => absurd ht List.not_mem_nil, fun a t hrun => ?_⟩⟩
  · cases hrun
  · cases hrun

theorem Follows.bind (h : Follows r c) (hf : ∀ a, Follows (f a) (g a)) :
    Follows (r >>= f) (c >>= g) :=
  ⟨h.records.bind fun a => (hf a).records, h.orderly.bind fun a => (hf a).orderly,
    h.contained.bind fun a => (hf a).contained⟩

/-- A failure may have any context put in front of it. -/
theorem Follows.within (h : Follows r c) (outside : Unit → String) :
    Follows (r.within outside) (Recorder.within outside c) := by
  refine ⟨h.records.within outside, fun s hs => ⟨(h.orderly hs).1, fun a t hrun => ?_⟩,
    fun base frame outer s hbase hs => ⟨(h.contained hbase hs).1, fun a t hrun => ?_⟩⟩
  · exact (h.orderly hs).2 (result_within_eq_ok.mp hrun)
  · exact (h.contained hbase hs).2 (result_within_eq_ok.mp hrun)

theorem follows_ite {p : Prop} [Decidable p] {r' : Passage α} {c' : Check α} (h : Follows r c)
    (h' : Follows r' c') : Follows (if p then r else r') (if p then c else c') := by
  split
  · exact h
  · exact h'

theorem follows_guard {p : Prop} [Decidable p] {e : Error} {next : PUnit → Passage α}
    {next' : PUnit → Check α} (h : ∀ u, Follows (next u) (next' u)) :
    Follows (if p then throw e >>= next else next ⟨⟩)
      (if p then throw e >>= next' else next' ⟨⟩) :=
  follows_ite ((follows_throw e).bind h) (h _)

theorem follows_forM {l : List α} {visit : α → Passage PUnit} {visit' : α → Check PUnit}
    (h : ∀ a, Follows (visit a) (visit' a)) : Follows (l.forM visit) (l.forM visit') := by
  induction l with
  | nil => exact follows_pure _
  | cons a l ih => exact (h a).bind fun _ => ih

/-! ### Operands -/

theorem follows_popExpect (expected : ValueType) :
    Follows (popExpect expected) (popExpect expected) := by
  refine steady_pop.follows.bind fun found => ?_
  cases found with
  | none => exact follows_pure _
  | some actual => exact follows_ite (follows_throw _) (follows_pure _)

theorem follows_popAll (types : List ValueType) : Follows (popAll types) (popAll types) :=
  follows_forM follows_popExpect

theorem follows_pushAll (types : List ValueType) :
    Follows (liftM (pushAll types)) (liftM (pushAll types)) :=
  (steady_pushAll types).follows

theorem follows_orThrow (a : Option α) (e : Error) :
    Follows (liftM (orThrow a e)) (liftM (orThrow a e)) :=
  (steady_orThrow a e).follows

theorem follows_labelTypes (depth : UInt32) :
    Follows (liftM (labelTypes depth)) (liftM (labelTypes depth)) :=
  (steady_labelTypes depth).follows

theorem follows_setUnreachable : Follows (liftM setUnreachable) (liftM setUnreachable) :=
  steady_setUnreachable.follows

theorem follows_push (o : Operand) : Follows (liftM (push o)) (liftM (push o)) :=
  (steady_push o).follows

/-- Popping what an instruction takes and pushing what it gives. -/
theorem follows_popAll_pushAll (params results : List ValueType) :
    Follows (popAll params >>= fun _ => liftM (pushAll results))
      (popAll params >>= fun _ => liftM (pushAll results)) := by
  refine (follows_popAll params).bind fun _ => ?_
  exact follows_pushAll results

/-- Popping what a branch supplies. -/
theorem follows_popAll_setUnreachable (types : List ValueType) :
    Follows (popAll types >>= fun _ => liftM setUnreachable)
      (popAll types >>= fun _ => liftM setUnreachable) := by
  refine (follows_popAll types).bind fun _ => ?_
  exact follows_setUnreachable

theorem follows_branchTable (labels : List UInt32) (default : UInt32) :
    Follows (Scope.branchTable labels default) (Scope.branchTable labels default) := by
  refine (follows_popExpect .i32).bind fun _ => ?_
  refine (follows_labelTypes default).bind fun expected => ?_
  have hagree (label : UInt32) : Follows (liftM (Scope.labelAgrees expected label))
      (liftM (Scope.labelAgrees expected label)) :=
    (steady_labelAgrees expected label).follows
  refine (follows_forM hagree).bind fun _ => ?_
  exact follows_popAll_setUnreachable expected

theorem follows_selection : Follows Scope.selection Scope.selection := by
  refine (follows_popExpect .i32).bind fun _ => ?_
  refine steady_pop.follows.bind fun first => ?_
  refine steady_pop.follows.bind fun second => ?_
  cases first with
  | none => exact (follows_pure _).bind fun _ => follows_push _
  | some a =>
    cases second with
    | none => exact (follows_pure _).bind fun _ => follows_push _
    | some b => exact follows_guard fun _ => follows_push _

variable (scope : Scope)

theorem follows_needsMemory :
    Follows (liftM scope.needsMemory) (liftM scope.needsMemory) :=
  (steady_needsMemory scope).follows

theorem follows_operator (i : Instr) (imm : Immediate) :
    Follows (scope.operator i imm) (scope.operator i imm) := by
  refine (follows_orThrow ..).bind fun signature => ?_
  cases imm with
  | memArg arg =>
    refine (steady_memoryAccess scope i.opcode arg).follows.bind fun _ => ?_
    exact follows_popAll_pushAll signature.params signature.results
  | _ => exact follows_popAll_pushAll signature.params signature.results

theorem follows_flat (i : Instr) : Follows (scope.flat i) (scope.flat i) := by
  unfold Scope.flat
  rcases i with ⟨op, imm⟩ | ⟨op, type, body⟩ | ⟨op, type, thenBody, elseBody⟩
  all_goals dsimp only [Instr.opcode]
  -- An instruction with a body has no immediate.
  case' block | ifElse => generalize Immediate.none = imm
  all_goals cases op with
    | unreachable => exact follows_setUnreachable
    | nop => exact follows_pure _
    | br =>
      cases imm with
      | index depth =>
        refine (follows_labelTypes depth).bind fun types => ?_
        exact follows_popAll_setUnreachable types
      | _ => exact follows_operator scope _ _
    | brIf =>
      cases imm with
      | index depth =>
        refine (follows_popExpect .i32).bind fun _ => ?_
        refine (follows_labelTypes depth).bind fun types => ?_
        exact follows_popAll_pushAll types types
      | _ => exact follows_operator scope _ _
    | brTable =>
      cases imm with
      | labels labels default => exact follows_branchTable labels default
      | _ => exact follows_operator scope _ _
    | ret =>
      refine steady_returnTypes.follows.bind fun types => ?_
      exact follows_popAll_setUnreachable types
    | call =>
      cases imm with
      | index f =>
        refine (follows_orThrow ..).bind fun type => ?_
        exact follows_popAll_pushAll type.params type.results
      | _ => exact follows_operator scope _ _
    | callIndirect =>
      cases imm with
      | typeIndex t =>
        refine follows_guard fun _ => ?_
        refine (follows_orThrow ..).bind fun type => ?_
        refine (follows_popExpect .i32).bind fun _ => ?_
        exact follows_popAll_pushAll type.params type.results
      | _ => exact follows_operator scope _ _
    | drop => exact steady_pop.follows.bind fun _ => follows_pure _
    | select => exact follows_selection
    | localGet =>
      cases imm with
      | index x => exact (follows_orThrow ..).bind fun type => follows_push type
      | _ => exact follows_operator scope _ _
    | localSet =>
      cases imm with
      | index x => exact (follows_orThrow ..).bind fun type => follows_popExpect type
      | _ => exact follows_operator scope _ _
    | localTee =>
      cases imm with
      | index x =>
        refine (follows_orThrow ..).bind fun type => ?_
        exact (follows_popExpect type).bind fun _ => follows_push type
      | _ => exact follows_operator scope _ _
    | globalGet =>
      cases imm with
      | index x => exact (follows_orThrow ..).bind fun type => follows_push type.valueType
      | _ => exact follows_operator scope _ _
    | globalSet =>
      cases imm with
      | index x =>
        refine (follows_orThrow ..).bind fun type => ?_
        exact follows_guard fun _ => follows_popExpect type.valueType
      | _ => exact follows_operator scope _ _
    | memorySize => exact (follows_needsMemory scope).bind fun _ => follows_push _
    | memoryGrow =>
      refine (follows_needsMemory scope).bind fun _ => ?_
      exact (follows_popExpect .i32).bind fun _ => follows_push _
    | const t => exact follows_push t
    | truncSat =>
      cases imm with
      | truncSat t => exact follows_popAll_pushAll t.signature.params t.signature.results
      | _ => exact follows_operator scope _ _
    | _ => exact follows_operator scope _ _

end Wasm.Validation
