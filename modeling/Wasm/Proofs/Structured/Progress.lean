import Wasm.Proofs.Structured.Follows
import Wasm.Proofs.Typing.Rules

/-!
# Typed instructions do not get stuck

What the typing rules promise about an instruction without control: with as many operands as its
rule asks for, and in an instance whose indices stand for what the module declares, it leaves as
many operands as its rule says, or it stops with a trap of its own: a division by zero, an access
out of bounds, and so on, but never for lack of an operand, a local, a global or a memory.  Slots
have no types, so the lengths of the lists are all that counts.
-/

namespace Wasm.Structured

open Typing (Context HasType)

/-- An instance is linked to objects with the given tables, which no instruction changes. -/
structure LinkedTo (b : Bindings) (T : Array Table) (o : Objects) : Prop where
  linked : Linked b o
  tables : o.tables = T

theorem LinkedTo.later {b : Bindings} {T : Array Table} {o o' : Objects} (h : LinkedTo b T o)
    (hlater : o.Later o') : LinkedTo b T o' :=
  ⟨h.linked.later hlater, hlater.tables.trans h.tables⟩

/-- A state with as many operands and locals as typing promises, in an instance that is linked. -/
structure Fits (b : Bindings) (T : Array Table) (Γ : Context) (n : Nat) (σ : State) : Prop where
  operands : σ.operands.length = n
  locals : σ.locals.length = Γ.locals.length
  linked : LinkedTo b T σ.objects

/-- From a state, a part of a run ends as the condition says, or with a trap that is no internal
error. -/
def Safely {α : Type} (d : Step α) (σ : State) (Q : α → State → Prop) : Prop :=
  (∃ a σ', d σ = .ok a σ' ∧ Q a σ') ∨ ∃ t σ', d σ = .error t σ' ∧ ¬ t.error.IsInternal

variable {α β : Type} {b : Bindings} {T : Array Table} {Γ : Context} {n : Nat}
  {σ : State}

theorem safely_pure {a : α} {Q : α → State → Prop} (h : Q a σ) : Safely (pure a) σ Q :=
  .inl ⟨a, σ, rfl, h⟩

theorem safely_throw {t : Trap} {Q : α → State → Prop} (h : ¬ t.error.IsInternal) :
    Safely (throw t) σ Q :=
  .inr ⟨t, σ, rfl, h⟩

theorem Safely.bind {d : Step α} {f : α → Step β} {P : α → State → Prop} {Q : β → State → Prop}
    (h : Safely d σ P) (hf : ∀ a σ', P a σ' → Safely (f a) σ' Q) : Safely (d >>= f) σ Q := by
  rcases h with ⟨a, σ', hd, hP⟩ | ⟨t, σ', hd, ht⟩
  · rw [Safely, bind_ok hd]
    exact hf a σ' hP
  · exact .inr ⟨t, σ', bind_error hd, ht⟩

theorem safely_get {f : State → Step α} {Q : α → State → Prop} (h : Safely (f σ) σ Q) :
    Safely (get >>= f) σ Q :=
  h

/-- A computation that may trap, if its traps are no internal errors. -/
theorem safely_orTrap {r : Except Trap α} {Q : α → State → Prop}
    (hok : ∀ a, r = .ok a → Q a σ) (herror : ∀ t, r = .error t → ¬ t.error.IsInternal) :
    Safely (orTrap r) σ Q := by
  cases r with
  | ok a => exact safely_pure (hok a rfl)
  | error t => exact safely_throw (herror t rfl)

theorem safely_found {r : Except Trap α} {a : α} {f : α → Step β} {Q : β → State → Prop}
    (hr : r = .ok a) (h : Safely (f a) σ Q) : Safely (orTrap r >>= f) σ Q := by
  rw [hr]
  exact h

/-! ### Operands and locals -/

theorem safely_push (slot : UInt64) (h : Fits b T Γ n σ) :
    Safely (push slot) σ fun _ => Fits b T Γ (n + 1) :=
  .inl ⟨(), _, rfl, congrArg (· + 1) h.operands, h.locals, h.linked⟩

theorem safely_pop (h : Fits b T Γ (n + 1) σ) : Safely pop σ fun _ => Fits b T Γ n := by
  rcases σ with ⟨_ | ⟨slot, rest⟩, locals, objects⟩
  · cases h.operands
  · exact .inl ⟨slot, _, rfl, Nat.succ.inj h.operands, h.locals, h.linked⟩

theorem safely_localGet {x : UInt32} (h : Fits b T Γ n σ) (hx : x.toNat < Γ.locals.length) :
    Safely (localGet x) σ fun _ => Fits b T Γ (n + 1) := by
  rw [← h.locals] at hx
  have hlocal : σ.locals[x.toNat]? = some σ.locals[x.toNat] := List.getElem?_eq_getElem hx
  refine safely_get ?_
  rw [hlocal]
  exact safely_push _ h

theorem safely_assign {x : UInt32} (slot : UInt64) (h : Fits b T Γ n σ)
    (hx : x.toNat < Γ.locals.length) : Safely (assign x slot) σ fun _ => Fits b T Γ n := by
  refine safely_get ?_
  rw [if_pos (by rw [h.locals]; exact hx)]
  exact .inl ⟨(), _, rfl, h.operands, (List.length_set ..).trans h.locals, h.linked⟩

theorem safely_localTee {x : UInt32} (h : Fits b T Γ (n + 1) σ) (hx : x.toNat < Γ.locals.length) :
    Safely (localTee x) σ fun _ => Fits b T Γ (n + 1) :=
  (safely_pop h).bind fun slot _ h' => (safely_push slot h').bind fun _ _ h'' =>
    safely_assign slot h'' hx

theorem safely_select (h : Fits b T Γ (n + 3) σ) : Safely select σ fun _ => Fits b T Γ (n + 1) :=
  (safely_pop h).bind fun _ _ h₁ => (safely_pop h₁).bind fun _ _ h₂ => (safely_pop h₂).bind
    fun _ _ h₃ => safely_push _ h₃

/-! ### Globals and memory -/

theorem globalAt_eq_ok {x : UInt32} {a : Address} (h : b.globals[x.toNat]? = some a) :
    b.globalAt x = .ok a := by
  rw [Bindings.globalAt, h]

theorem safely_globalGet {x : UInt32} {type : GlobalType} (h : Fits b T Γ n σ)
    (hx : b.module.globalType? x = some type) :
    Safely (globalGet b x) σ fun _ => Fits b T Γ (n + 1) := by
  obtain ⟨a, c, ha, hc, -⟩ := h.linked.linked.globals hx
  refine safely_get (safely_found (globalAt_eq_ok ha) ?_)
  exact safely_found (Objects.global_eq_ok_iff.mpr hc) (safely_push _ h)

/-- A value read from a slot has the type of the cell, so only an immutable cell refuses it. -/
theorem set_eq_ok {c : Cell} (h : c.isMutable = true) (slot : UInt64) :
    c.set (Value.ofSlot c.value.type slot) =
      .ok { c with value := Value.ofSlot c.value.type slot } := by
  rw [Cell.set, if_neg (by simp [h]), if_neg (by simp)]

theorem safely_globalSet {x : UInt32} {type : GlobalType} (h : Fits b T Γ (n + 1) σ)
    (hx : b.module.globalType? x = some type) (hmutable : type.isMutable = true) :
    Safely (globalSet b x) σ fun _ => Fits b T Γ n := by
  refine (safely_pop h).bind fun slot σ' h' => ?_
  obtain ⟨a, c, ha, hc, htype⟩ := h'.linked.linked.globals hx
  have hset := set_eq_ok (c := c) ((congrArg GlobalType.isMutable htype).trans hmutable) slot
  refine safely_found (globalAt_eq_ok ha) (safely_get ?_)
  refine safely_found (Objects.global_eq_ok_iff.mpr hc) (safely_found hset ?_)
  exact .inl ⟨(), _, rfl, h'.operands, h'.locals,
    h'.linked.later (Objects.later_putGlobal hc (Cell.type_of_set hset))⟩

theorem safely_memory {f : Address × Memory → Step α} {Q : α → State → Prop} (h : Fits b T Γ n σ)
    (hmemory : 0 < b.module.count .memory) (hf : ∀ a m, Safely (f (a, m)) σ Q) :
    Safely (memory b >>= f) σ Q := by
  obtain ⟨a, ha, hlt⟩ := h.linked.linked.memory hmemory
  have hat : b.memoryAt = .ok a := by rw [Bindings.memoryAt, ha]
  have hm : σ.objects.memory a = .ok σ.objects.memories[a] := by
    rw [Objects.memory, Array.getElem?_eq_getElem hlt]
  have hrun : memory b σ = .ok (a, σ.objects.memories[a]) σ := by
    show (orTrap b.memoryAt >>= fun a => get >>= fun σ => orTrap (σ.objects.memory a) >>= fun m =>
      pure (a, m)) σ = _
    rw [hat]
    show (orTrap (σ.objects.memory a) >>= fun m => pure (a, m)) σ = _
    rw [hm]
    rfl
  rw [Safely, bind_ok hrun]
  exact hf a _

theorem not_isInternal_outOfBounds (m : Memory) (offset length : Nat) :
    ¬ (m.outOfBounds offset length).error.IsInternal := by
  rw [Trap.isInternal_error]
  show Code.memoryOutOfBounds ∉ _
  decide

theorem read_error {m : Memory} {offset length : Nat} {t : Trap}
    (h : m.read offset length = .error t) : ¬ t.error.IsInternal := by
  unfold Memory.read at h
  split at h
  · cases h
  · cases h
    exact not_isInternal_outOfBounds m offset length

theorem safely_load {m : MemArg} {count : Nat} {decode : Nat → UInt64} (h : Fits b T Γ (n + 1) σ)
    (hmemory : 0 < b.module.count .memory) :
    Safely (load b m count decode) σ fun _ => Fits b T Γ (n + 1) := by
  refine (safely_pop h).bind fun slot σ' h' => safely_memory h' hmemory fun a memory => ?_
  refine (safely_orTrap (Q := fun _ => Fits b T Γ n) (fun _ _ => h') fun t ht => read_error ht).bind
    fun data σ'' h'' => safely_push _ h''

theorem safely_store {m : MemArg} {count : Nat} (h : Fits b T Γ (n + 2) σ)
    (hmemory : 0 < b.module.count .memory) :
    Safely (store b m count) σ fun _ => Fits b T Γ n := by
  refine (safely_pop h).bind fun slot σ₁ h₁ => (safely_pop h₁).bind fun base σ₂ h₂ =>
    safely_memory h₂ hmemory fun a memory => ?_
  dsimp only
  by_cases hb : memory.inBounds (address m base) count
  · rw [if_pos hb]
    exact .inl ⟨(), _, rfl, h₂.operands, h₂.locals, h₂.linked.later (Objects.later_putBytes ..)⟩
  · rw [if_neg hb]
    exact safely_throw (not_isInternal_outOfBounds memory _ _)

theorem safely_memorySize (h : Fits b T Γ n σ) (hmemory : 0 < b.module.count .memory) :
    Safely (memorySize b) σ fun _ => Fits b T Γ (n + 1) :=
  safely_memory h hmemory fun _ _ => safely_push _ h

theorem safely_memoryGrow (h : Fits b T Γ (n + 1) σ) (hmemory : 0 < b.module.count .memory) :
    Safely (memoryGrow b) σ fun _ => Fits b T Γ (n + 1) := by
  refine (safely_pop h).bind fun slot σ' h' => safely_memory h' hmemory fun a memory => ?_
  dsimp only
  cases memory.grow slot.toUInt32 with
  | error e => exact safely_push _ h'
  | ok grown =>
    refine Safely.bind (P := fun _ => Fits b T Γ n) (.inl ⟨(), _, rfl, ?_⟩) fun _ _ h'' =>
      safely_push _ h''
    exact ⟨h'.operands, h'.locals, h'.linked.later (Objects.later_putMemory ..)⟩

/-! ### Tables -/

/-- The table of the instance holds a function. -/
def Holds (b : Bindings) (o : Objects) (f : FuncRef) : Prop :=
  ∃ (a : Address) (table : Table) (i : Nat), b.table = some a ∧ o.tables[a]? = some table ∧
    table.slots[i]? = some (some f)

/-- An indirect call finds a function of the expected type in the table. -/
theorem safely_selected {typeIndex : UInt32} {expected : FuncType} (h : Fits b T Γ (n + 1) σ)
    (htable : 0 < b.module.count .table)
    (hexpected : b.module.types[typeIndex.toNat]? = some expected) :
    Safely (selected b typeIndex) σ fun f σ' =>
      Fits b T Γ n σ' ∧ f.type = expected ∧ Holds b σ'.objects f := by
  refine (safely_pop h).bind fun slot σ' h' => ?_
  obtain ⟨a, ha, hlt⟩ := h'.linked.linked.table htable
  have hat : b.tableAt = .ok a := by rw [Bindings.tableAt, ha]
  have hfound : σ'.objects.tables[a]? = some σ'.objects.tables[a] := Array.getElem?_eq_getElem hlt
  have htable : σ'.objects.table a = .ok σ'.objects.tables[a] := by rw [Objects.table, hfound]
  refine safely_found hat (safely_get (safely_found htable ?_))
  cases hget : σ'.objects.tables[a].get slot.toUInt32 with
  | error t =>
    refine .inr ⟨t, σ', rfl, ?_⟩
    unfold Table.get at hget
    split at hget
    · cases hget
    · cases hget
      rw [Trap.isInternal_error]
      show Code.tableOutOfBounds ∉ _
      decide
  | ok entry =>
    refine safely_found rfl ?_
    cases entry with
    | none =>
      refine safely_throw ?_
      rw [Trap.isInternal_error]
      show Code.uninitializedElement ∉ _
      decide
    | some f =>
      dsimp only
      rw [hexpected]
      dsimp only
      by_cases htype : f.type = expected
      · rw [if_neg (not_not_intro htype)]
        refine safely_pure ⟨h', htype, a, _, slot.toUInt32.toNat, ha, hfound, ?_⟩
        unfold Table.get at hget
        split at hget
        · next hslot =>
          cases hget
          exact hslot
        · cases hget
      · rw [if_pos htype]
        refine safely_throw ?_
        rw [Trap.isInternal_error]
        show Code.indirectCallType ∉ _
        decide

/-! ### Numeric operators -/

/-- The traps of an operator are no internal errors. -/
def Sound : Operator → Prop
  | .unary eval => ∀ a t, eval a = .error t → ¬ t.error.IsInternal
  | .binary eval => ∀ a a' t, eval a a' = .error t → ¬ t.error.IsInternal

/-- The number of operands of an operator. -/
def arity : Operator → Nat
  | .unary _ => 1
  | .binary _ => 2

theorem safely_operate {f : Operator} (hf : Sound f) (h : Fits b T Γ (n + arity f) σ) :
    Safely (operate f) σ fun _ => Fits b T Γ (n + 1) := by
  cases f with
  | unary eval =>
    refine (safely_pop h).bind fun a σ₁ h₁ => ?_
    refine (safely_orTrap (Q := fun _ => Fits b T Γ n) (fun _ _ => h₁) fun t ht => hf _ t ht).bind
      fun slot _ h' => safely_push slot h'
  | binary eval =>
    refine (safely_pop h).bind fun a σ₁ h₁ => (safely_pop h₁).bind fun a' σ₂ h₂ => ?_
    refine (safely_orTrap (Q := fun _ => Fits b T Γ n) (fun _ _ => h₂) fun t ht => hf _ _ t ht).bind
      fun slot _ h' => safely_push slot h'

theorem sound_unary (eval : UInt64 → UInt64) : Sound (.unary fun a => .ok (eval a)) :=
  fun _ _ h => nomatch h

theorem sound_binary (eval : UInt64 → UInt64 → UInt64) :
    Sound (.binary fun a a' => .ok (eval a a')) :=
  fun _ _ _ h => nomatch h

theorem map_eq_error {α β : Type} {r : Except Trap α} {f : α → β} {t : Trap}
    (h : r.map f = .error t) : r = .error t := by
  cases r with
  | error t' =>
    cases h
    rfl
  | ok a => cases h

/-- Division and remainder trap on a zero divisor, and division also where the quotient does not
fit. -/
theorem intBinary_error {n : Nat} {op : IntBinary} {a a' : BitVec n} {t : Trap}
    (h : op.eval a a' = .error t) : t = .divisionByZero ∨ t = .integerOverflow := by
  cases op with
  | div s =>
    simp only [IntBinary.eval, IntBinary.quotient] at h
    split at h
    · cases h
      exact .inl rfl
    · cases s with
      | unsigned => cases h
      | signed =>
        dsimp only at h
        split at h <;> cases h
        exact .inr rfl
  | rem s =>
    simp only [IntBinary.eval, IntBinary.remainder] at h
    split at h
    · cases h
      exact .inl rfl
    · cases s <;> cases h
  | shr s => cases s <;> cases h
  | _ => cases h

theorem truncate_error {f : Ieee.Format} {range : OpenRange} {s : Sign} {bits a : Nat} {t : Trap}
    (h : f.truncate range s bits a = .error t) :
    t = .invalidConversion ∨ t = .integerOverflow := by
  unfold Ieee.Format.truncate at h
  split at h
  · cases h
    exact .inl rfl
  · split at h <;> cases h
    exact .inr rfl

theorem not_isInternal_of_numeric {t : Trap}
    (h : t = .divisionByZero ∨ t = .integerOverflow ∨ t = .invalidConversion) :
    ¬ t.error.IsInternal := by
  rw [Trap.isInternal_error]
  rcases h with rfl | rfl | rfl <;> decide

/-- An opcode with a signature that does not access memory is a numeric operator of that many
operands, with one result. -/
theorem exists_operator {op : Opcode} {sig : FuncType} (hwidth : op.accessBytes? = none)
    (hsig : op.signature? = some sig) : ∃ f, op.operator? = some f ∧
      simple b op .none = operate f ∧ Sound f ∧ sig.params.length = arity f ∧
      sig.results.length = 1 := by
  cases op <;> simp only [Opcode.signature?, reduceCtorEq, Option.some.injEq] at hsig <;>
    subst hsig
  case load | loadPart | store | storePart => cases hwidth
  case intEqz => exact ⟨_, rfl, rfl, sound_unary _, rfl, rfl⟩
  case intUnary => exact ⟨_, rfl, rfl, sound_unary _, rfl, rfl⟩
  case floatUnary => exact ⟨_, rfl, rfl, sound_unary _, rfl, rfl⟩
  case extend => exact ⟨_, rfl, rfl, sound_unary _, rfl, rfl⟩
  case intCompare => exact ⟨_, rfl, rfl, sound_binary _, rfl, rfl⟩
  case floatCompare => exact ⟨_, rfl, rfl, sound_binary _, rfl, rfl⟩
  case floatBinary => exact ⟨_, rfl, rfl, sound_binary _, rfl, rfl⟩
  case intBinary =>
    refine ⟨_, rfl, rfl, fun _ _ _ h => not_isInternal_of_numeric ?_, rfl, rfl⟩
    exact (intBinary_error (map_eq_error h)).imp_right .inl
  case conversion c =>
    refine ⟨_, rfl, rfl, fun _ _ h => ?_, ?_, ?_⟩
    · cases c with
      | trunc target source s =>
        exact not_isInternal_of_numeric (.inr (truncate_error (map_eq_error h)).symm)
      | _ => cases h
    · cases c <;> rfl
    · cases c <;> rfl

/-! ### Instructions -/

/-- Whether an opcode neither branches nor calls nor opens a block. -/
def isSimple : Opcode → Bool
  | .unreachable | .block | .loop | .ifElse | .br | .brIf | .brTable | .ret | .call
  | .callIndirect => false
  | _ => true

theorem safely_access {op : Opcode} {arg : MemArg} {width : Nat} {sig : FuncType}
    (hwidth : op.accessBytes? = some width) (hsig : op.signature? = some sig)
    (hmemory : 0 < b.module.count .memory) (h : Fits b T Γ (n + sig.params.length) σ) :
    Safely (simple b op (.memArg arg)) σ fun _ => Fits b T Γ (n + sig.results.length) := by
  cases op <;> simp only [Opcode.signature?, reduceCtorEq, Option.some.injEq] at hsig <;>
    subst hsig
  case load => exact safely_load h hmemory
  case loadPart => exact safely_load h hmemory
  case store => exact safely_store h hmemory
  case storePart => exact safely_store h hmemory
  all_goals cases hwidth

/-- A typed instruction without control leaves as many operands as its typing says. -/
theorem safely_simple {op : Opcode} {imm : Immediate} {ps rs : List ValueType}
    (htyped : HasType Γ (.plain op imm) ps rs) (hsimple : isSimple op = true)
    (hmodule : Γ.module = b.module) (h : Fits b T Γ (n + ps.length) σ) :
    Safely (simple b op imm) σ fun _ => Fits b T Γ (n + rs.length) := by
  cases htyped with
  | nop => exact safely_pure h
  | drop => exact (safely_pop h).bind fun _ _ h' => safely_pure h'
  | select => exact safely_select h
  | localGet hx => exact safely_localGet h (List.getElem?_eq_some_iff.mp hx).1
  | localSet hx =>
    exact (safely_pop h).bind fun slot _ h' =>
      safely_assign slot h' (List.getElem?_eq_some_iff.mp hx).1
  | localTee hx => exact safely_localTee h (List.getElem?_eq_some_iff.mp hx).1
  | globalGet hx =>
    rw [← Module.globalType?_eq, hmodule] at hx
    exact safely_globalGet h hx
  | globalSet hx hmutable =>
    rw [← Module.globalType?_eq, hmodule] at hx
    exact safely_globalSet h hx hmutable
  | memorySize hm => exact safely_memorySize h (hmodule ▸ hm)
  | memoryGrow hm => exact safely_memoryGrow h (hmodule ▸ hm)
  | const => exact safely_push _ h
  | access hwidth hsig hm =>
    exact safely_access (Opcode.accessBytes?_eq_some_iff.mpr hwidth) hsig (hmodule ▸ hm) h
  | operator hwidth hsig =>
    replace hwidth := Opcode.accessBytes?_eq_none_iff.mpr hwidth
    obtain ⟨f, -, hrun, hsound, hparams, hresults⟩ := exists_operator (b := b) hwidth hsig
    rw [hrun, hresults]
    rw [hparams] at h
    exact safely_operate hsound h
  | truncSat => exact safely_operate (sound_unary _) h
  | _ => cases hsimple

/-! ### On the machine -/

/-- Where a part of a run is safe and the machine follows it, the machine does the same, or it stops
with an error that is not internal: the trap of the run, or an overflow of the stack. -/
theorem Follows.safely {p : Place} {c : Execution.Step α} {d : Step α} {Q : α → State → Prop}
    (hf : Follows p σ c d) (hs : Safely d σ Q) :
    (∃ a σ', d σ = .ok a σ' ∧ c (p.exec σ) = .ok a (p.exec σ') ∧ Q a σ' ∧
      σ.objects.Later σ'.objects) ∨
    ∃ t σ', c (p.exec σ) = .error t.error (p.exec σ') ∧ (t = .stackOverflow ∨ d σ = .error t σ') ∧
      ¬ t.error.IsInternal ∧ σ.objects.Later σ'.objects := by
  rcases hs with ⟨a, σ', hd, hQ⟩ | ⟨t, σ', hd, ht⟩
  · cases hf with
    | ok hd' hc hlater =>
      cases hd.symm.trans hd'
      exact .inl ⟨a, _, hd, hc, hQ, hlater⟩
    | error hd' hc hlater =>
      rcases hd' with rfl | hd'
      · exact .inr ⟨_, _, hc, .inl rfl, by decide, hlater⟩
      · cases hd.symm.trans hd'
    | stuck hd' => cases hd.symm.trans hd'
  · cases hf with
    | ok hd' hc hlater => cases hd.symm.trans hd'
    | error hd' hc hlater =>
      rcases hd' with rfl | hd'
      · exact .inr ⟨_, _, hc, .inl rfl, by decide, hlater⟩
      · cases hd.symm.trans hd'
        exact .inr ⟨t, _, hc, .inr hd, ht, hlater⟩
    | stuck hd' =>
      cases hd.symm.trans hd'
      exact absurd (by decide : Trap.stackUnderflow.error.IsInternal) ht

end Wasm.Structured
