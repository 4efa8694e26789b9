import Wasm.Proofs.Execution.Control
import Wasm.Proofs.Execution.Objects
import Wasm.Proofs.Structured.Semantics

/-!
# The machine follows the structured semantics on data

On the machine the operands of a block are the top of one stack of slots, on which there follow the
operands of the blocks around it, the locals of the activation, last local first, and whatever its
caller has there.  A `Place` is all of this but the state of the activation itself, and
`follows_simple` says that an instruction without control does at any place what it does in the
structured semantics.  Only the limit of the stack can make a difference.
-/

namespace Wasm.Structured

/-- What surrounds a running block on the machine. -/
structure Place where
  /-- The operands of the blocks around it. -/
  below : List UInt64
  /-- The slots below the first local. -/
  lower : List UInt64
  limit : Nat
  frames : List Frame
  callDepth : Nat

namespace Place

/-- All slots of the machine. -/
def slots (p : Place) (σ : State) : List UInt64 :=
  σ.operands ++ (p.below ++ (σ.locals.reverse ++ p.lower))

/-- The machine with a state at a place. -/
def exec (p : Place) (σ : State) : Execution :=
  ⟨σ.objects, .ofLists (p.slots σ) p.limit p.frames p.lower.length p.callDepth⟩

theorem slots_eq_cons {p : Place} {σ : State} {slot : UInt64} {rest : List UInt64}
    (h : σ.operands = slot :: rest) :
    p.slots σ = slot :: p.slots { σ with operands := rest } := by
  rw [slots, h]
  rfl

theorem length_slots (p : Place) (σ : State) : (p.slots σ).length =
    σ.operands.length + p.below.length + σ.locals.length + p.lower.length := by
  simp only [slots, List.length_append, List.length_reverse]
  omega

/-- The locals are in their order above the slots below them. -/
theorem reverse_slots (p : Place) (σ : State) :
    (p.slots σ).reverse = p.lower.reverse ++ (σ.locals ++ (σ.operands ++ p.below).reverse) := by
  simp [slots]

theorem get_local {p : Place} {σ : State} {x : Nat} {slot : UInt64} (h : σ.locals[x]? = some slot) :
    OperandStack.get ⟨.ofList (p.slots σ), p.limit⟩ (p.lower.length + x) = .ok slot := by
  have hlt : x < σ.locals.length := (List.getElem?_eq_some_iff.mp h).1
  have hget : (p.slots σ).reverse[p.lower.length + x]? = some slot := by
    rw [reverse_slots, List.getElem?_append_right (by simp)]
    rw [List.length_reverse, Nat.add_sub_cancel_left, List.getElem?_append_left hlt, h]
  rw [OperandStack.get, Stack.get?_ofList, hget]

theorem set_local {p : Place} {σ : State} {x : Nat} (h : x < σ.locals.length) (slot : UInt64) :
    OperandStack.set ⟨.ofList (p.slots σ), p.limit⟩ (p.lower.length + x) slot =
      .ok ⟨.ofList (p.slots { σ with locals := σ.locals.set x slot }), p.limit⟩ := by
  have hheight : OperandStack.height ⟨.ofList (p.slots σ), p.limit⟩ = (p.slots σ).length := rfl
  rw [OperandStack.set, hheight, if_pos (by rw [length_slots]; omega), Stack.set_ofList]
  have hset : (p.slots σ).reverse.set (p.lower.length + x) slot =
      (p.slots { σ with locals := σ.locals.set x slot }).reverse := by
    rw [reverse_slots, reverse_slots, List.set_append_right _ _ (by simp), List.length_reverse,
      Nat.add_sub_cancel_left, List.set_append_left _ _ h]
  rw [hset, List.reverse_reverse]

end Place

variable {α β : Type} {p : Place} {σ : State}

/-- From a state at a place, a part of an execution does what a part of a run does, unless it
exceeds the limit of the stack.  Nothing is said where the run lacks an operand. -/
inductive Follows (p : Place) (σ : State) (c : Execution.Step α) (d : Step α) : Prop where
  | ok {a : α} {σ' : State} (hd : d σ = .ok a σ') (hc : c (p.exec σ) = .ok a (p.exec σ'))
      (hlater : σ.objects.Later σ'.objects)
  | error {t : Trap} {σ' : State} (hd : t = .stackOverflow ∨ d σ = .error t σ')
      (hc : c (p.exec σ) = .error t.error (p.exec σ')) (hlater : σ.objects.Later σ'.objects)
  | stuck {σ' : State} (hd : d σ = .error .stackUnderflow σ')

/-! ### Composition -/

/-- Only what is done from this state and this place counts. -/
theorem Follows.congr {c c' : Execution.Step α} {d d' : Step α} (h : Follows p σ c d)
    (hc : c' (p.exec σ) = c (p.exec σ)) (hd : d' σ = d σ) : Follows p σ c' d' := by
  cases h with
  | ok hd' hc' hlater => exact .ok (hd.trans hd') (hc.trans hc') hlater
  | error hd' hc' hlater => exact .error (hd'.imp_right hd.trans) (hc.trans hc') hlater
  | stuck hd' => exact .stuck (hd.trans hd')

theorem bind_ok {d : Step α} {g : α → Step β} {σ σ' : State} {a : α} (h : d σ = .ok a σ') :
    (d >>= g) σ = g a σ' := by
  show EStateM.bind d g σ = _
  rw [EStateM.bind, h]

theorem bind_error {d : Step α} {g : α → Step β} {σ σ' : State} {t : Trap}
    (h : d σ = .error t σ') : (d >>= g) σ = .error t σ' := by
  show EStateM.bind d g σ = _
  rw [EStateM.bind, h]

theorem bind_get {g : State → Step β} (σ : State) : (get >>= g) σ = g σ σ :=
  rfl

theorem Follows.bind {c : Execution.Step α} {d : Step α} {f : α → Execution.Step β}
    {g : α → Step β} (h : Follows p σ c d)
    (hf : ∀ {a σ'}, d σ = .ok a σ' → Follows p σ' (f a) (g a)) :
    Follows p σ (c >>= f) (d >>= g) := by
  cases h with
  | @ok a σ' hd hc hlater =>
    cases hf hd with
    | ok hd' hc' hlater' =>
      exact .ok ((bind_ok hd).trans hd') ((Execution.bind_ok hc).trans hc') (hlater.trans hlater')
    | error hd' hc' hlater' =>
      exact .error (hd'.imp_right (bind_ok hd).trans) ((Execution.bind_ok hc).trans hc')
        (hlater.trans hlater')
    | stuck hd' => exact .stuck ((bind_ok hd).trans hd')
  | error hd hc hlater =>
    exact .error (hd.imp_right bind_error) (Execution.bind_error hc) hlater
  | stuck hd => exact .stuck (bind_error hd)

theorem follows_pure (a : α) : Follows p σ (pure a) (pure a) :=
  .ok rfl rfl (Objects.later_refl _)

theorem follows_throw (t : Trap) : Follows p σ (Execution.trap (α := α) t) (throw t) :=
  .error (.inr rfl) rfl (Objects.later_refl _)

theorem follows_orTrap (r : Except Trap α) : Follows p σ (Execution.orTrap r) (orTrap r) := by
  cases r with
  | ok a => exact follows_pure a
  | error t => exact follows_throw t

theorem follows_get {f : Execution → Execution.Step α} {g : State → Step α}
    (h : Follows p σ (f (p.exec σ)) (g σ)) : Follows p σ (get >>= f) (get >>= g) :=
  h.congr rfl rfl

/-- Replacing the objects by later ones. -/
theorem follows_modify {f : Objects → Objects} (h : σ.objects.Later (f σ.objects)) :
    Follows p σ (modify fun x => { x with objects := f x.objects })
      (modify fun σ => { σ with objects := f σ.objects }) :=
  .ok rfl rfl h

/-! ### Operands and locals -/

theorem follows_push (slot : UInt64) : Follows p σ (Execution.push slot) (push slot) := by
  have hpush : Execution.push slot (p.exec σ) = _ := Execution.push_ofLists slot
  by_cases h : p.limit ≤ (p.slots σ).length
  · rw [if_pos h] at hpush
    exact .error (.inl rfl) hpush (Objects.later_refl _)
  · rw [if_neg h] at hpush
    exact .ok rfl hpush (Objects.later_refl _)

/-- What popping does to a state, and to the machine at any place. -/
theorem pop_cases (p : Place) (σ : State) : pop σ = .error .stackUnderflow σ ∨
    ∃ slot rest, σ.operands = slot :: rest ∧ pop σ = .ok slot { σ with operands := rest } ∧
      Execution.pop (p.exec σ) = .ok slot (p.exec { σ with operands := rest }) := by
  rcases σ with ⟨_ | ⟨slot, rest⟩, locals, objects⟩
  · exact .inl rfl
  · refine .inr ⟨slot, rest, rfl, rfl, ?_⟩
    exact Execution.pop_ofLists slot

theorem follows_pop : Follows p σ Execution.pop pop := by
  rcases pop_cases p σ with h | ⟨slot, rest, -, hd, hc⟩
  · exact .stuck h
  · exact .ok hd hc (Objects.later_refl _)

theorem follows_popU32 {f : UInt32 → Execution.Step α} {g : UInt64 → Step α}
    (h : ∀ {slot σ'}, pop σ = .ok slot σ' → Follows p σ' (f slot.toUInt32) (g slot)) :
    Follows p σ (Execution.popU32 >>= f) (pop >>= g) := by
  have hpop : Execution.popU32 >>= f = Execution.pop >>= fun slot => f slot.toUInt32 := by
    simp only [Execution.popU32, bind_assoc, pure_bind]
  rw [hpop]
  exact follows_pop.bind h

theorem follows_localGet (x : UInt32) : Follows p σ (Execution.localGet x) (localGet x) := by
  cases h : σ.locals[x.toNat]? with
  | none =>
    have hrun : localGet x σ = (throw .stackUnderflow : Step Unit) σ := by
      rw [localGet, bind_get, h]
    exact .stuck hrun
  | some slot =>
    refine (follows_push slot).congr ?_ (by rw [localGet, bind_get, h])
    show (Execution.orTrap (OperandStack.get ⟨.ofList (p.slots σ), p.limit⟩
      (p.lower.length + x.toNat)) >>= Execution.push) (p.exec σ) = _
    rw [Place.get_local h]
    rfl

/-- Replacing a local on the machine. -/
theorem follows_assign (x : UInt32) (slot : UInt64) :
    Follows p σ (do
      Execution.setOperands (← Execution.orTrap
        ((← Execution.operands).set (← Execution.localAt x) slot))) (assign x slot) := by
  by_cases h : x.toNat < σ.locals.length
  · have hd : assign x slot σ = .ok () { σ with locals := σ.locals.set x.toNat slot } := by
      show (ite _ _ _ : Step Unit) σ = _
      rw [if_pos h]
      rfl
    refine .ok hd ?_ (Objects.later_refl _)
    show (Execution.orTrap (OperandStack.set ⟨.ofList (p.slots σ), p.limit⟩
      (p.lower.length + x.toNat) slot) >>= Execution.setOperands) (p.exec σ) = _
    rw [Place.set_local h]
    rfl
  · have hd : assign x slot σ = .error .stackUnderflow σ := by
      show (ite _ _ _ : Step Unit) σ = _
      rw [if_neg h]
      rfl
    exact .stuck hd

theorem follows_localSet (x : UInt32) : Follows p σ (Execution.localSet x) (localSet x) :=
  follows_pop.bind fun _ => follows_assign x _

theorem follows_localTee (x : UInt32) : Follows p σ (Execution.localTee x) (localTee x) := by
  rcases pop_cases p σ with h | ⟨slot, rest, hσ, hd, -⟩
  · exact .stuck (bind_error h)
  · have hrun : localTee x σ = assign x slot σ := by
      rcases σ with ⟨operands, locals, objects⟩
      obtain rfl : operands = slot :: rest := hσ
      rfl
    have hpeek : OperandStack.peek ⟨.ofList (p.slots σ), p.limit⟩ = .ok slot := by
      rw [Place.slots_eq_cons hσ]
      exact OperandStack.peek_ofList_cons slot
    refine (follows_assign x slot).congr ?_ hrun
    have hop : (Execution.operands >>= fun s => Execution.orTrap s.peek) (p.exec σ) =
        .ok slot (p.exec σ) := by
      show Execution.orTrap (OperandStack.peek ⟨.ofList (p.slots σ), p.limit⟩) (p.exec σ) = _
      rw [hpeek]
      rfl
    unfold Execution.localTee
    rw [← bind_assoc]
    exact Execution.bind_ok hop

/-! ### Globals and memory -/

theorem follows_globalGet (b : Bindings) (x : UInt32) :
    Follows p σ (Execution.globalGet b x) (globalGet b x) := by
  refine follows_get ((follows_orTrap _).bind fun _ => ?_)
  exact (follows_orTrap _).bind fun _ => follows_push _

theorem orTrap_eq_ok {r : Except Trap α} {a : α} {σ σ' : State} (h : orTrap r σ = .ok a σ') :
    r = .ok a ∧ σ' = σ := by
  cases r with
  | ok a' =>
    cases h
    exact ⟨rfl, rfl⟩
  | error t => cases h

theorem follows_globalSet (b : Bindings) (x : UInt32) :
    Follows p σ (Execution.globalSet b x) (globalSet b x) := by
  refine follows_pop.bind fun _ => (follows_orTrap _).bind fun {a _} _ => follows_get ?_
  refine (follows_orTrap _).bind fun hcell => (follows_orTrap _).bind fun {cell _} hset => ?_
  obtain ⟨hfound, rfl⟩ := orTrap_eq_ok hcell
  obtain ⟨hcell', rfl⟩ := orTrap_eq_ok hset
  exact @follows_modify _ _ (fun o => o.putGlobal a cell)
    (Objects.later_putGlobal (Objects.global_eq_ok_iff.mp hfound) (Cell.type_of_set hcell'))

theorem follows_select : Follows p σ Execution.select select :=
  follows_popU32 fun _ => follows_pop.bind fun _ => follows_pop.bind fun _ => follows_push _

/-- Finding the memory of the instance. -/
theorem follows_memory {b : Bindings} {f : Address → Memory → Execution.Step α}
    {g : Address × Memory → Step α} (h : ∀ a m, Follows p σ (f a m) (g (a, m))) :
    Follows p σ (Execution.orTrap b.memoryAt >>= fun a => get >>= fun x =>
      Execution.orTrap (x.objects.memory a) >>= f a) (memory b >>= g) := by
  unfold memory
  rw [bind_assoc]
  refine (follows_orTrap _).bind fun ha => ?_
  obtain ⟨-, rfl⟩ := orTrap_eq_ok ha
  rw [bind_assoc]
  refine follows_get ?_
  rw [bind_assoc]
  refine (follows_orTrap _).bind fun hm => ?_
  obtain ⟨-, rfl⟩ := orTrap_eq_ok hm
  exact h _ _

/-- Finding the memory, with the objects looked at first. -/
theorem follows_memory' {b : Bindings} {f : Memory → Execution.Step α}
    {g : Address × Memory → Step α} (h : ∀ a m, Follows p σ (f m) (g (a, m))) :
    Follows p σ (get >>= fun x => Execution.orTrap b.memoryAt >>= fun a =>
      Execution.orTrap (x.objects.memory a) >>= f) (memory b >>= g) := by
  refine (@follows_memory _ _ _ b (fun _ => f) g h).congr ?_ rfl
  cases b.memoryAt <;> rfl

theorem follows_load (b : Bindings) (m : MemArg) (count : Nat) (decode : Nat → UInt64) :
    Follows p σ (Execution.load b m count decode) (load b m count decode) :=
  follows_popU32 fun _ => follows_memory' fun _ _ => (follows_orTrap _).bind fun _ =>
    follows_push _

theorem follows_store (b : Bindings) (m : MemArg) (count : Nat) :
    Follows p σ (Execution.store b m count) (store b m count) := by
  refine follows_pop.bind fun {slot _} _ => follows_popU32 fun {base _} _ => ?_
  refine follows_memory fun a memory => ?_
  show Follows _ _ (ite (memory.inBounds (address m base) count) _ _)
    (ite (memory.inBounds (address m base) count) _ _)
  by_cases h : memory.inBounds (address m base) count
  · rw [if_pos h, if_pos h]
    exact @follows_modify _ _ (fun o => o.putBytes _ _ _) (Objects.later_putBytes ..)
  · rw [if_neg h, if_neg h]
    exact follows_throw _

theorem follows_memorySize (b : Bindings) :
    Follows p σ (Execution.memorySize b) (memorySize b) :=
  follows_memory' fun _ _ => follows_push _

theorem follows_memoryGrow (b : Bindings) :
    Follows p σ (Execution.memoryGrow b) (memoryGrow b) := by
  refine follows_popU32 fun {delta _} _ => ?_
  refine follows_memory fun a memory => ?_
  dsimp only
  cases memory.grow delta.toUInt32 with
  | error e => exact follows_push _
  | ok grown =>
    exact (@follows_modify _ _ (fun o => o.putMemory _ _) (Objects.later_putMemory ..)).bind
      fun _ => follows_push _

/-- Finding the function of an indirect call. -/
theorem follows_selected (b : Bindings) (typeIndex : UInt32) :
    Follows p σ (Execution.selected b typeIndex) (selected b typeIndex) := by
  refine follows_popU32 fun _ => (follows_orTrap _).bind fun _ => follows_get ?_
  refine (follows_orTrap _).bind fun _ => (follows_orTrap _).bind fun {entry _} _ => ?_
  cases entry with
  | none => exact follows_throw _
  | some f =>
    dsimp only
    cases b.module.types[typeIndex.toNat]? with
    | none => exact .stuck rfl
    | some expected =>
      dsimp only
      by_cases htype : f.type ≠ expected
      · rw [if_pos htype, if_pos htype]
        exact follows_throw _
      · rw [if_neg htype, if_neg htype]
        exact follows_pure f

/-! ### Instructions -/

theorem follows_operate (f : Operator) : Follows p σ (Execution.operate f) (operate f) := by
  cases f with
  | unary eval =>
    exact follows_pop.bind fun _ => (follows_orTrap _).bind fun _ => follows_push _
  | binary eval =>
    exact follows_pop.bind fun _ => follows_pop.bind fun _ => (follows_orTrap _).bind fun _ =>
      follows_push _

/-- At any place the machine does what the structured semantics does in an instruction that neither
branches nor calls. -/
theorem follows_simple (b : Bindings) (op : Opcode) (imm : Immediate) :
    Follows p σ (Execution.simple b (.plain op imm)) (simple b op imm) := by
  unfold Execution.simple
  simp only [Instr.opcode, Execution.immediate]
  split
  case h_1 => exact follows_pure ()
  case h_2 => exact (follows_pop (p := p) (σ := σ)).bind fun _ => follows_pure ()
  case h_3 => exact follows_select
  case h_4 x => exact follows_localGet x
  case h_5 x => exact follows_localSet x
  case h_6 x => exact follows_localTee x
  case h_7 x => exact follows_globalGet b x
  case h_8 x => exact follows_globalSet b x
  case h_9 t m => exact follows_load b m _ _
  case h_10 m => exact follows_load b m _ _
  case h_11 m => exact follows_store b m _
  case h_12 m => exact follows_store b m _
  case h_13 => exact follows_memorySize b
  case h_14 => exact follows_memoryGrow b
  case h_15 v => exact follows_push v.toSlot
  case h_16 t => exact follows_operate _
  case h_17 =>
    rw [simple]
    · cases op.operator? with
      | some f => exact follows_operate f
      | none => exact .stuck rfl
    all_goals assumption

end Wasm.Structured
