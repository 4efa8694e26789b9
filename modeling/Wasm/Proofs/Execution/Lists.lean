import Wasm.Machine.Activation

/-!
# Executions as lists

A stack keeps its height beside its items, and two stacks with the same items are the same.  So an
execution is determined by its objects, two lists and two numbers, and every primitive on stacks is
an equation between such executions: that is how the proofs about the machine look at it.
-/

namespace Wasm

namespace Stack

variable {α : Type}

@[simp] theorem items_ofList (l : List α) : (ofList l).items = l := rfl

@[simp] theorem height_ofList (l : List α) : (ofList l).height = l.length := rfl

theorem ofList_items (s : Stack α) : ofList s.items = s :=
  eq_of_items_eq rfl

theorem push_ofList (l : List α) (a : α) : (ofList l).push a = ofList (a :: l) :=
  eq_of_items_eq rfl

theorem pushMany_ofList (l : List α) (n : Nat) (a : α) :
    (ofList l).pushMany n a = ofList (List.replicate n a ++ l) :=
  eq_of_items_eq rfl

theorem drop_ofList (l : List α) (n : Nat) : (ofList l).drop n = ofList (l.drop n) :=
  eq_of_items_eq rfl

theorem pop?_ofList_cons (a : α) (l : List α) : (ofList (a :: l)).pop? = some (a, ofList l) :=
  pop?_eq_some_iff.mpr rfl

theorem setTop_ofList_cons (a b : α) (l : List α) :
    (ofList (a :: l)).setTop b = ofList (b :: l) :=
  eq_of_items_eq rfl

/-- A position counts from the bottom. -/
theorem get?_ofList (l : List α) (position : Nat) :
    (ofList l).get? position = l.reverse[position]? := by
  rw [get?, height_ofList]
  by_cases h : position < l.length
  · rw [if_pos h, List.getElem?_reverse h]
    rfl
  · rw [if_neg h, List.getElem?_eq_none]
    simpa using h

theorem set_ofList (l : List α) (position : Nat) (a : α) :
    (ofList l).set position a = ofList (l.reverse.set position a).reverse := by
  apply eq_of_items_eq
  rw [set]
  split
  · next hlt =>
    have h : position < l.length := hlt
    apply List.ext_getElem?
    intro i
    simp only [items_ofList, height_ofList]
    by_cases hi : i < l.length
    · rw [List.getElem?_reverse (by simpa using hi)]
      simp only [List.getElem?_set, List.length_set, List.length_reverse]
      rw [List.getElem?_reverse (by omega), show l.length - 1 - (l.length - 1 - i) = i by omega]
      by_cases he : l.length - 1 - position = i
      · rw [if_pos he, if_pos (by omega), if_pos (by omega), if_pos h]
      · rw [if_neg he, if_neg (by omega)]
    · rw [List.getElem?_eq_none (by simpa using hi), List.getElem?_eq_none (by simpa using hi)]
  · next hlt =>
    have h : l.length ≤ position := Nat.le_of_not_lt hlt
    rw [items_ofList, List.set_eq_of_length_le (by simpa using h), List.reverse_reverse,
      items_ofList]

end Stack

/-! ### Operand stacks -/

/-- What stays of a list of slots when it is cut down to height `base`, but for the top `keep`. -/
def unwound (base keep : Nat) (slots : List UInt64) : List UInt64 :=
  slots.take keep ++ slots.drop (slots.length - base)

theorem unwound_eq_self {base keep : Nat} {slots : List UInt64}
    (h : slots.length = base + keep) : unwound base keep slots = slots := by
  rw [unwound, h, Nat.add_sub_cancel_left, List.take_append_drop]

/-- Only the top of what is above the base stays. -/
theorem unwound_append {keep : Nat} {above lower : List UInt64} (h : keep ≤ above.length) :
    unwound lower.length keep (above ++ lower) = above.take keep ++ lower := by
  rw [unwound, List.take_append_of_le_length h, List.length_append, Nat.add_sub_cancel,
    List.drop_left]

namespace OperandStack

variable {limit : Nat} {slots : List UInt64}

theorem height_eq (s : OperandStack) : s.height = s.slots.items.length :=
  s.slots.height_eq

theorem push_ofList (slot : UInt64) : push ⟨.ofList slots, limit⟩ slot =
    if limit ≤ slots.length then .error .stackOverflow else .ok ⟨.ofList (slot :: slots), limit⟩ :=
  rfl

theorem pop_ofList_cons (slot : UInt64) :
    pop ⟨.ofList (slot :: slots), limit⟩ = .ok (slot, ⟨.ofList slots, limit⟩) := by
  simp only [pop, Stack.pop?_ofList_cons]

theorem peek_ofList_cons (slot : UInt64) :
    peek ⟨.ofList (slot :: slots), limit⟩ = .ok slot := by
  simp only [peek, Stack.pop?_ofList_cons]

theorem pushZeros_ofList (count : Nat) : pushZeros ⟨.ofList slots, limit⟩ count =
    if limit - slots.length < count then .error .stackOverflow
    else .ok ⟨.ofList (List.replicate count 0 ++ slots), limit⟩ := by
  rw [← Stack.pushMany_ofList]
  rfl

theorem unwind_ofList {base keep : Nat} (h : base + keep ≤ slots.length) :
    unwind ⟨.ofList slots, limit⟩ base keep = .ok ⟨.ofList (unwound base keep slots), limit⟩ := by
  have hheight : height ⟨.ofList slots, limit⟩ = slots.length := rfl
  rw [unwind, hheight, if_neg (by omega)]
  split
  · next heq => rw [unwound_eq_self heq]
  · exact congrArg (fun s => Except.ok (OperandStack.mk s limit)) (Stack.eq_of_items_eq rfl)

theorem popMany_ofList {count : Nat} (h : count ≤ slots.length) :
    popMany ⟨.ofList slots, limit⟩ count =
      .ok ((slots.take count).reverse, ⟨.ofList (slots.drop count), limit⟩) := by
  have hheight : height ⟨.ofList slots, limit⟩ = slots.length := rfl
  rw [popMany, hheight, if_neg (by omega)]
  exact congrArg (fun s => Except.ok ((slots.take count).reverse, OperandStack.mk s limit))
    (Stack.drop_ofList slots count)

/-- Pushing stops where the limit is reached; what was there stays. -/
theorem pushAll_ofList (values : List UInt64) : pushAll ⟨.ofList slots, limit⟩ values =
    if slots.length + values.length ≤ max limit slots.length then
      .ok ⟨.ofList (values.reverse ++ slots), limit⟩
    else .error .stackOverflow := by
  induction values generalizing slots with
  | nil => exact (if_pos (Nat.le_max_right ..)).symm
  | cons slot rest ih =>
    rw [pushAll, push_ofList]
    by_cases h : limit ≤ slots.length
    · rw [if_pos h, if_neg]
      rw [List.length_cons]
      omega
    · rw [if_neg h, List.reverse_cons, List.append_assoc]
      refine ih.trans ?_
      have hfits : (slot :: slots).length + rest.length ≤ max limit (slot :: slots).length ↔
          slots.length + (slot :: rest).length ≤ max limit slots.length := by
        rw [List.length_cons, List.length_cons]
        omega
      simp only [hfits]
      rfl

end OperandStack

/-! ### Threads and executions -/

/-- The thread with the given contents of its stacks, the top first. -/
def Thread.ofLists (slots : List UInt64) (limit : Nat) (frames : List Frame)
    (localBase callDepth : Nat) : Thread :=
  ⟨⟨.ofList slots, limit⟩, .ofList frames, localBase, callDepth⟩

theorem Thread.frames_ofLists (slots : List UInt64) (limit : Nat) (frames : List Frame)
    (localBase callDepth : Nat) :
    (ofLists slots limit frames localBase callDepth).frames = .ofList frames :=
  rfl

theorem Thread.eq_ofLists (t : Thread) : t = .ofLists t.operands.slots.items t.operands.limit
    t.frames.items t.localBase t.callDepth := by
  rcases t with ⟨⟨slots, limit⟩, frames, localBase, callDepth⟩
  rw [ofLists, Stack.ofList_items, Stack.ofList_items]

namespace Execution

variable {α β : Type}

theorem bind_ok {c : Step α} {f : α → Step β} {x y : Execution} {a : α} (h : c x = .ok a y) :
    (c >>= f) x = f a y := by
  show EStateM.bind c f x = _
  rw [EStateM.bind, h]

theorem bind_error {c : Step α} {f : α → Step β} {x y : Execution} {e : Error}
    (h : c x = .error e y) : (c >>= f) x = .error e y := by
  show EStateM.bind c f x = _
  rw [EStateM.bind, h]

theorem bind_get {f : Execution → Step β} (x : Execution) : (get >>= f) x = f x x :=
  rfl

theorem orTrap_ok (a : α) (x : Execution) : orTrap (.ok a) x = .ok a x :=
  rfl

variable {o : Objects} {slots : List UInt64} {limit : Nat} {frames : List Frame}
  {localBase callDepth : Nat}

theorem operands_ofLists : operands ⟨o, .ofLists slots limit frames localBase callDepth⟩ =
    .ok ⟨.ofList slots, limit⟩ ⟨o, .ofLists slots limit frames localBase callDepth⟩ :=
  rfl

theorem setOperands_ofLists (slots' : List UInt64) : setOperands ⟨.ofList slots', limit⟩
    ⟨o, .ofLists slots limit frames localBase callDepth⟩ =
      .ok () ⟨o, .ofLists slots' limit frames localBase callDepth⟩ :=
  rfl

theorem setFrames_ofLists (frames' : List Frame) : setFrames (.ofList frames')
    ⟨o, .ofLists slots limit frames localBase callDepth⟩ =
      .ok () ⟨o, .ofLists slots limit frames' localBase callDepth⟩ :=
  rfl

theorem push_ofLists (slot : UInt64) :
    push slot ⟨o, .ofLists slots limit frames localBase callDepth⟩ =
    if limit ≤ slots.length then
      .error Trap.stackOverflow.error ⟨o, .ofLists slots limit frames localBase callDepth⟩
    else .ok () ⟨o, .ofLists (slot :: slots) limit frames localBase callDepth⟩ := by
  unfold push
  rw [bind_ok operands_ofLists, OperandStack.push_ofList]
  split <;> rfl

theorem pop_ofLists (slot : UInt64) :
    pop ⟨o, .ofLists (slot :: slots) limit frames localBase callDepth⟩ =
      .ok slot ⟨o, .ofLists slots limit frames localBase callDepth⟩ := by
  unfold pop
  rw [bind_ok operands_ofLists, OperandStack.pop_ofList_cons]
  rfl

theorem popU32_ofLists (slot : UInt64) :
    popU32 ⟨o, .ofLists (slot :: slots) limit frames localBase callDepth⟩ =
      .ok slot.toUInt32 ⟨o, .ofLists slots limit frames localBase callDepth⟩ := by
  unfold popU32
  rw [bind_ok (pop_ofLists slot)]
  rfl

/-- Values from outside go on top of the slots of a thread, if there is room. -/
theorem pushAll_eq (o : Objects) (t : Thread) (values : List UInt64) (next : Step α) :
    (operands >>= fun s => orTrap (s.pushAll values) >>= fun s => setOperands s >>= fun _ => next)
        ⟨o, t⟩ =
      if t.operands.height + values.length ≤ max t.operands.limit t.operands.height then
        next ⟨o, .ofLists (values.reverse ++ t.operands.slots.items) t.operands.limit
          t.frames.items t.localBase t.callDepth⟩
      else .error Trap.stackOverflow.error ⟨o, t⟩ := by
  have hoperands : operands ⟨o, t⟩ =
      .ok ⟨.ofList t.operands.slots.items, t.operands.limit⟩ ⟨o, t⟩ := by
    rw [Stack.ofList_items]
    rfl
  rw [bind_ok hoperands, OperandStack.pushAll_ofList, ← OperandStack.height_eq]
  by_cases hfits : t.operands.height + values.length ≤ max t.operands.limit t.operands.height
  · rw [if_pos hfits, if_pos hfits, bind_ok (orTrap_ok _ _), Thread.ofLists, Stack.ofList_items]
    rfl
  · rw [if_neg hfits, if_neg hfits]
    rfl

theorem pushAll_cases (o : Objects) (t : Thread) (values : List UInt64) (next : Step α) :
    (operands >>= fun s => orTrap (s.pushAll values) >>= fun s => setOperands s >>= fun _ => next)
        ⟨o, t⟩ = .error Trap.stackOverflow.error ⟨o, t⟩ ∨
    (operands >>= fun s => orTrap (s.pushAll values) >>= fun s => setOperands s >>= fun _ => next)
        ⟨o, t⟩ = next ⟨o, .ofLists (values.reverse ++ t.operands.slots.items) t.operands.limit
          t.frames.items t.localBase t.callDepth⟩ := by
  rw [pushAll_eq]
  split
  · exact .inr rfl
  · exact .inl rfl

end Execution

end Wasm
