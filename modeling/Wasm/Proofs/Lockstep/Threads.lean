import Wasm.Proofs.Lockstep.Trimming
import Wasm.Thread

/-!
# Threads in step

Two threads run the same code, except that the second one may have more room on its stacks and that
dead code may be cut off from its frames.  While control leaves a frame for good, or starts it over,
it does not matter what is left of it; frames of which nothing is known in this respect are called
loose, and which ones may be loose is said by their heights on the stack.
-/

namespace Wasm

/-- The second limit is the first one, or, where there may be slack, a higher one. -/
def Room (slack : Prop) (limit limit' : Nat) : Prop :=
  limit' = limit ∨ slack ∧ limit ≤ limit'

/-- A limit on a stack was in the way. -/
def Error.Exhausted (e : Error) : Prop :=
  e.code = Code.stackOverflow ∨ e.code = Code.callStackExhausted

/-- Two results of a computation that may trap: the first one is a limit that the second one need
not meet, or both are alike. -/
inductive Agreeing {α : Type} (slack : Prop) (P : α → α → Prop) :
    Except Trap α → Except Trap α → Prop
  | exhausted {t : Trap} {r' : Except Trap α} (hslack : slack) (ht : t.error.Exhausted) :
      Agreeing slack P (.error t) r'
  | ok {a a' : α} (h : P a a') : Agreeing slack P (.ok a) (.ok a')
  | error (t : Trap) : Agreeing slack P (.error t) (.error t)

theorem agreeing_self {α : Type} {slack : Prop} (r : Except Trap α) : Agreeing slack Eq r r := by
  cases r with
  | ok a => exact .ok rfl
  | error t => exact .error t

variable {slack : Prop} {loose : Nat → Prop}

theorem Room.refl (slack : Prop) (limit : Nat) : Room slack limit limit :=
  .inl rfl

theorem Room.le {limit limit' : Nat} (h : Room slack limit limit') : limit ≤ limit' := by
  rcases h with rfl | ⟨-, h⟩
  · exact Nat.le_refl _
  · exact h

/-! ### Operand stacks -/

/-- The same slots, and at least as much room. -/
structure OperandStack.InStep (slack : Prop) (s s' : OperandStack) : Prop where
  slots : s'.slots = s.slots
  limit : Room slack s.limit s'.limit

namespace OperandStack.InStep

variable {s s' : OperandStack}

theorem height (h : s.InStep slack s') : s'.height = s.height := by
  rw [OperandStack.height, OperandStack.height, h.slots]

/-- Where the first stack is too small the second one may be, too. -/
theorem full (h : s.InStep slack s') {P : OperandStack → OperandStack → Prop} {t t' : OperandStack}
    {n : Nat} (hP : n ≤ s.limit → P t t') :
    Agreeing slack P (if n ≤ s.limit then .ok t else .error .stackOverflow)
      (if n ≤ s'.limit then .ok t' else .error .stackOverflow) := by
  by_cases hn : n ≤ s.limit
  · rw [if_pos hn, if_pos (Nat.le_trans hn h.limit.le)]
    exact .ok (hP hn)
  · rw [if_neg hn]
    rcases h.limit with heq | ⟨hslack, -⟩
    · rw [heq, if_neg hn]
      exact .error _
    · exact .exhausted hslack (.inl rfl)

theorem push (h : s.InStep slack s') (slot : UInt64) :
    Agreeing slack (OperandStack.InStep slack) (s.push slot) (s'.push slot) := by
  have hpush (s : OperandStack) : s.push slot = if s.height + 1 ≤ s.limit then
      .ok { s with slots := s.slots.push slot } else .error .stackOverflow := by
    unfold OperandStack.push
    by_cases hfull : s.limit ≤ s.height
    · rw [if_pos hfull, if_neg (by omega)]
    · rw [if_neg hfull, if_pos (by omega)]
  rw [hpush, hpush, h.height]
  exact h.full fun _ => ⟨by rw [h.slots], h.limit⟩

theorem pushZeros (h : s.InStep slack s') (count : Nat) :
    Agreeing slack (OperandStack.InStep slack) (s.pushZeros count) (s'.pushZeros count) := by
  cases count with
  | zero =>
    have hpush (s : OperandStack) : s.pushZeros 0 =
        .ok { s with slots := s.slots.pushMany 0 0 } := if_neg (Nat.not_lt_zero _)
    rw [hpush, hpush]
    exact .ok ⟨by rw [h.slots], h.limit⟩
  | succ count =>
    have hpush (s : OperandStack) : s.pushZeros (count + 1) =
        if s.height + (count + 1) ≤ s.limit then
          .ok { s with slots := s.slots.pushMany (count + 1) 0 } else .error .stackOverflow := by
      unfold OperandStack.pushZeros
      by_cases hfull : s.limit - s.height < count + 1
      · rw [if_pos hfull, if_neg (by omega)]
      · rw [if_neg hfull, if_pos (by omega)]
    rw [hpush, hpush, h.height]
    exact h.full fun _ => ⟨by rw [h.slots], h.limit⟩

theorem pushAll (h : s.InStep slack s') (slots : List UInt64) :
    Agreeing slack (OperandStack.InStep slack) (s.pushAll slots) (s'.pushAll slots) := by
  induction slots generalizing s s' with
  | nil => exact .ok h
  | cons slot rest ih =>
    unfold OperandStack.pushAll
    have hpush := h.push slot
    revert hpush
    generalize s.push slot = r
    generalize s'.push slot = r'
    intro hpush
    cases hpush with
    | exhausted hslack ht => exact .exhausted hslack ht
    | ok h => exact ih h
    | error t => exact .error t

theorem pop (h : s.InStep slack s') :
    Agreeing slack (fun p p' => p'.1 = p.1 ∧ p.2.InStep slack p'.2) s.pop s'.pop := by
  unfold OperandStack.pop
  rw [h.slots]
  cases s.slots.pop? with
  | none => exact .error _
  | some p => exact .ok ⟨rfl, rfl, h.limit⟩

theorem peek (h : s.InStep slack s') : s'.peek = s.peek := by
  unfold OperandStack.peek
  rw [h.slots]

theorem get (h : s.InStep slack s') (position : Nat) : s'.get position = s.get position := by
  unfold OperandStack.get
  rw [h.slots]

theorem set (h : s.InStep slack s') (position : Nat) (slot : UInt64) :
    Agreeing slack (OperandStack.InStep slack) (s.set position slot) (s'.set position slot) := by
  unfold OperandStack.set
  rw [h.height]
  split
  · exact .ok ⟨by rw [h.slots], h.limit⟩
  · exact .error _

theorem unwind (h : s.InStep slack s') (base keep : Nat) :
    Agreeing slack (OperandStack.InStep slack) (s.unwind base keep) (s'.unwind base keep) := by
  unfold OperandStack.unwind
  rw [h.height]
  split
  · exact .error _
  · split
    · exact .ok h
    · exact .ok ⟨by rw [h.slots], h.limit⟩

theorem truncate (h : s.InStep slack s') (height : Nat) :
    (s.truncate height).InStep slack (s'.truncate height) :=
  ⟨congrArg (·.truncate height) h.slots, h.limit⟩

theorem popMany (h : s.InStep slack s') (count : Nat) :
    Agreeing slack (fun p p' => p'.1 = p.1 ∧ p.2.InStep slack p'.2) (s.popMany count)
      (s'.popMany count) := by
  unfold OperandStack.popMany
  rw [h.height, h.slots]
  split
  · exact .error _
  · exact .ok ⟨rfl, rfl, h.limit⟩

end OperandStack.InStep

/-! ### Frames -/

/-- The same frame, with a trimmed body.  Unless it is loose, both frames are as far in it. -/
structure Frame.InStep (loose : Prop) (f f' : Frame) : Prop where
  kind : f'.kind = f.kind
  base : f'.base = f.base
  params : f'.params = f.params
  results : f'.results = f.results
  savedLocalBase : f'.savedLocalBase = f.savedLocalBase
  body : Expr.Trims f.body f'.body
  rest : loose ∨
    Expr.Trims f.rest f'.rest ∧ f'.body.length + f.rest.length = f.body.length + f'.rest.length

/-- Frames in step, the innermost first. -/
inductive FramesInStep (loose : Nat → Prop) : List Frame → List Frame → Prop
  | nil : FramesInStep loose [] []
  | cons {f f' : Frame} {below below' : List Frame} (h : f.InStep (loose (below.length + 1)) f')
      (hbelow : FramesInStep loose below below') :
      FramesInStep loose (f :: below) (f' :: below')

/-- No frame is loose. -/
abbrev Tight (_ : Nat) : Prop :=
  False

section

variable {p : Prop} {f f' : Frame}

theorem Frame.InStep.branchArity (h : f.InStep p f') : f'.branchArity = f.branchArity := by
  rw [Frame.branchArity, Frame.branchArity, h.kind, h.params, h.results]

theorem Frame.InStep.restart {q : Prop} (h : f.InStep p f') : f.restart.InStep q f'.restart :=
  ⟨h.kind, h.base, h.params, h.results, h.savedLocalBase, h.body, .inr ⟨h.body, Nat.add_comm ..⟩⟩

theorem Frame.inStep_enter (kind : FrameKind) {body body' : Expr} (hbody : Expr.Trims body body')
    (base params results : Nat) :
    (Frame.enter kind body base params results).InStep p
      (Frame.enter kind body' base params results) :=
  ⟨rfl, rfl, rfl, rfl, rfl, hbody, .inr ⟨hbody, Nat.add_comm ..⟩⟩

/-- A frame has come as far in a trimmed body as in the whole one. -/
theorem Frame.InStep.site {i i' : Instr} (h : f.InStep False f') (hi : Instr.Trims i i') :
    f'.site i' = f.site i := by
  obtain ⟨-, hlength⟩ := h.rest.resolve_left id
  have hposition : f'.position = f.position := by
    unfold Frame.position
    omega
  rw [Frame.site, Frame.site, hposition, hi.name_eq]

end

namespace FramesInStep

variable {frames frames' : List Frame} {loose' : Nat → Prop}

theorem length_eq (h : FramesInStep loose frames frames') : frames'.length = frames.length := by
  induction h with
  | nil => rfl
  | cons _ _ ih => rw [List.length_cons, List.length_cons, ih]

theorem mono (h : FramesInStep loose frames frames')
    (hloose : ∀ k ≤ frames.length, loose k → loose' k) : FramesInStep loose' frames frames' := by
  induction h with
  | nil => exact .nil
  | @cons f f' below below' h _ ih =>
    refine .cons ⟨h.kind, h.base, h.params, h.results, h.savedLocalBase, h.body, ?_⟩
      (ih fun k hk => hloose k (by rw [List.length_cons]; omega))
    exact h.rest.imp_left (hloose _ (by rw [List.length_cons]))

theorem drop (h : FramesInStep loose frames frames') (n : Nat) :
    FramesInStep loose (frames.drop n) (frames'.drop n) := by
  induction h generalizing n with
  | nil =>
    rw [List.drop_nil]
    exact .nil
  | cons h hbelow ih =>
    cases n with
    | zero => exact .cons h hbelow
    | succ n => exact ih n

/-- The call is as many frames out. -/
theorem findIdx?_call (h : FramesInStep loose frames frames') :
    frames'.findIdx? (·.kind = .call) = frames.findIdx? (·.kind = .call) := by
  induction h with
  | nil => rfl
  | cons h _ ih => rw [List.findIdx?_cons, List.findIdx?_cons, h.kind, ih]

/-- Where the loose frames are cut off, none is left. -/
theorem truncate {s s' : Stack Frame} (h : FramesInStep loose s.items s'.items) {n : Nat}
    (hloose : ∀ k, loose k → n < k) :
    FramesInStep Tight (s.truncate n).items (s'.truncate n).items := by
  have hheight : s'.height = s.height := by
    rw [s'.height_eq, s.height_eq, h.length_eq]
  rw [Stack.items_truncate, Stack.items_truncate, hheight]
  refine (h.drop _).mono fun k hk hl => ?_
  have := hloose k hl
  rw [List.length_drop, s.height_eq] at hk
  omega

/-- A loose frame at the top of both stacks that starts over is not loose any more. -/
theorem settle (h : FramesInStep loose frames frames') {n : Nat} (hlength : frames.length ≤ n)
    (hloose : ∀ k, loose k → n ≤ k)
    (hstart : ∀ {f below}, frames = f :: below → n ≤ frames.length → f.rest = f.body)
    (hstart' : ∀ {f below}, frames' = f :: below → n ≤ frames'.length → f.rest = f.body) :
    FramesInStep Tight frames frames' := by
  cases h with
  | nil => exact .nil
  | @cons f f' below below' h hbelow =>
    rw [List.length_cons] at hlength
    refine .cons ⟨h.kind, h.base, h.params, h.results, h.savedLocalBase, h.body, .inr ?_⟩
      (hbelow.mono fun k hk hl => ?_)
    · rcases h.rest with hl | hrest
      · have hn := hloose _ hl
        have hrest := hstart rfl (by rwa [List.length_cons])
        have hrest' := hstart' rfl (by rw [List.length_cons, hbelow.length_eq]; exact hn)
        rw [hrest, hrest']
        exact ⟨h.body, Nat.add_comm ..⟩
      · exact hrest
    · have := hloose k hl
      omega

end FramesInStep

/-- A new top on the same stack. -/
theorem Stack.items_setTop {α : Type} {s : Stack α} {a b : α} {below : List α}
    (h : s.items = a :: below) : (s.setTop b).items = b :: below := by
  obtain ⟨items, height, hheight⟩ := s
  obtain rfl : items = a :: below := h
  rfl

/-! ### Threads -/

/-- Two threads in step. -/
structure Thread.InStep (slack : Prop) (loose : Nat → Prop) (t t' : Thread) : Prop where
  operands : t.operands.InStep slack t'.operands
  frames : FramesInStep loose t.frames.items t'.frames.items
  localBase : t'.localBase = t.localBase
  callDepth : t'.callDepth = t.callDepth

namespace Thread.InStep

variable {t t' u u' : Thread}

theorem height (h : t.InStep slack loose t') : t'.frames.height = t.frames.height := by
  rw [t'.frames.height_eq, t.frames.height_eq, h.frames.length_eq]

theorem mono (h : t.InStep slack loose t') {loose' : Nat → Prop}
    (hloose : ∀ k ≤ t.frames.height, loose k → loose' k) : t.InStep slack loose' t' :=
  ⟨h.operands, h.frames.mono (t.frames.height_eq ▸ hloose), h.localBase, h.callDepth⟩

/-- Cut back to what they had before, two threads are in step again. -/
theorem cutBack (h : t.InStep slack loose t') (hu : u.InStep slack Tight u')
    (hloose : ∀ k, loose k → u.frames.height < k) :
    (t.cutBack u).InStep slack Tight (t'.cutBack u') := by
  refine ⟨?_, ?_, hu.localBase, hu.callDepth⟩
  · show (t.operands.truncate _).InStep slack (t'.operands.truncate _)
    rw [hu.operands.height]
    exact h.operands.truncate _
  · show FramesInStep Tight (t.frames.truncate _).items (t'.frames.truncate _).items
    rw [hu.height]
    exact h.frames.truncate hloose

end Thread.InStep

end Wasm
