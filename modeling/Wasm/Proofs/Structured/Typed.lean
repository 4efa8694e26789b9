import Wasm.Proofs.Execution.Slots
import Wasm.Proofs.Structured.Progress

/-!
# Typed instructions keep slots canonical

Progress is about how many operands there are; this is about what they are.  If the operands and the
locals are canonical slots of their types, an instruction without control leaves canonical slots of
the types that its rule promises, whenever it comes to its end (`yields_simple`).  Nothing is said
about an instruction that traps.
-/

namespace Wasm.Structured

open Typing (Context HasType)

/-- The operands and the locals are canonical slots of their types. -/
structure Shaped (Γ : Context) (ts : List ValueType) (σ : State) : Prop where
  operands : OfTypes ts σ.operands
  locals : List.Forall₂ ValueType.Canonical Γ.locals σ.locals

theorem Shaped.fits {b : Bindings} {T : Array Table} {Γ : Context} {ts : List ValueType}
    {σ : State} (h : Shaped Γ ts σ) (hlinked : LinkedTo b T σ.objects) :
    Fits b T Γ ts.length σ :=
  ⟨h.operands.length_eq, h.locals.length_eq.symm, hlinked⟩

/-- Where a part of a run comes to its end, it ends as the condition says. -/
def Yields {α : Type} (d : Step α) (σ : State) (Q : α → State → Prop) : Prop :=
  ∀ a σ', d σ = .ok a σ' → Q a σ'

variable {α β : Type} {b : Bindings} {T : Array Table} {Γ : Context} {n : Nat} {σ : State}
  {t : ValueType} {ts ps : List ValueType}

theorem yields_pure {a : α} {Q : α → State → Prop} (h : Q a σ) : Yields (pure a) σ Q := by
  intro a' σ' hrun
  cases hrun
  exact h

theorem yields_throw (e : Trap) (Q : α → State → Prop) : Yields (throw e) σ Q :=
  fun _ _ hrun => nomatch hrun

theorem Yields.bind {d : Step α} {f : α → Step β} {P : α → State → Prop} {Q : β → State → Prop}
    (h : Yields d σ P) (hf : ∀ a σ', P a σ' → Yields (f a) σ' Q) : Yields (d >>= f) σ Q := by
  intro c σ'' hrun
  cases hd : d σ with
  | error e σ' =>
    rw [bind_error hd] at hrun
    cases hrun
  | ok a σ' =>
    rw [bind_ok hd] at hrun
    exact hf a σ' (h a σ' hd) c σ'' hrun

theorem yields_get {f : State → Step α} {Q : α → State → Prop} (h : Yields (f σ) σ Q) :
    Yields (get >>= f) σ Q :=
  h

/-- Looking at what may be missing changes nothing. -/
theorem yields_orTrap {r : Except Trap α} {f : α → Step β} {Q : β → State → Prop}
    (h : ∀ a, r = .ok a → Yields (f a) σ Q) : Yields (orTrap r >>= f) σ Q := by
  cases r with
  | error e => exact yields_throw e Q
  | ok a => exact h a rfl

/-- What a safe part of a run yields. -/
theorem Safely.yields {d : Step α} {P Q : α → State → Prop} (h : Safely d σ P)
    (hyields : Yields d σ Q) : Safely d σ fun a σ' => P a σ' ∧ Q a σ' := by
  rcases h with ⟨a, σ', hrun, hP⟩ | herror
  · exact .inl ⟨a, σ', hrun, hP, hyields a σ' hrun⟩
  · exact .inr herror

/-! ### Operands and locals -/

theorem Shaped.withObjects (h : Shaped Γ ts σ) (o : Objects) :
    Shaped Γ ts { σ with objects := o } :=
  ⟨h.operands, h.locals⟩

theorem yields_push {slot : UInt64} (h : Shaped Γ ts σ) (hslot : t.Canonical slot) :
    Yields (push slot) σ fun _ => Shaped Γ (ts ++ [t]) := by
  intro a σ' hrun
  cases hrun
  exact ⟨ofTypes_concat.mpr ⟨slot, σ.operands, rfl, hslot, h.operands⟩, h.locals⟩

theorem yields_pop (h : Shaped Γ (ts ++ [t]) σ) :
    Yields pop σ fun slot σ' => t.Canonical slot ∧ Shaped Γ ts σ' := by
  obtain ⟨operands, locals, objects⟩ := σ
  obtain ⟨slot, rest, hoperands, hslot, hrest⟩ := ofTypes_concat.mp h.operands
  obtain rfl : operands = slot :: rest := hoperands
  intro a σ' hrun
  cases hrun
  exact ⟨hslot, hrest, h.locals⟩

theorem yields_localGet {x : UInt32} (h : Shaped Γ ts σ) (hx : Γ.locals[x.toNat]? = some t) :
    Yields (localGet x) σ fun _ => Shaped Γ (ts ++ [t]) := by
  refine yields_get ?_
  cases hlocal : σ.locals[x.toNat]? with
  | none => exact yields_throw _ _
  | some slot =>
    have hslot : t.Canonical slot := canonical_of_getElem? h.locals hx hlocal
    exact yields_push h hslot

theorem yields_assign {x : UInt32} {slot : UInt64} (h : Shaped Γ ts σ)
    (hx : Γ.locals[x.toNat]? = some t) (hslot : t.Canonical slot) :
    Yields (assign x slot) σ fun _ => Shaped Γ ts := by
  refine yields_get ?_
  by_cases hlt : x.toNat < σ.locals.length
  · rw [if_pos hlt]
    intro a σ' hrun
    cases hrun
    exact ⟨h.operands, forall₂_set h.locals hx hslot⟩
  · rw [if_neg hlt]
    exact yields_throw _ _

theorem yields_localTee {x : UInt32} (h : Shaped Γ (ts ++ [t]) σ)
    (hx : Γ.locals[x.toNat]? = some t) :
    Yields (localTee x) σ fun _ => Shaped Γ (ts ++ [t]) :=
  (yields_pop h).bind fun _ _ ⟨hslot, h'⟩ => (yields_push h' hslot).bind fun _ _ h'' =>
    yields_assign h'' hx hslot

theorem yields_select (h : Shaped Γ (ts ++ [t] ++ [t] ++ [.i32]) σ) :
    Yields select σ fun _ => Shaped Γ (ts ++ [t]) := by
  refine (yields_pop h).bind fun condition _ ⟨_, h₁⟩ => ?_
  refine (yields_pop h₁).bind fun second _ ⟨hsecond, h₂⟩ => ?_
  refine (yields_pop h₂).bind fun first _ ⟨hfirst, h₃⟩ => yields_push h₃ ?_
  by_cases hcondition : condition.toUInt32 ≠ 0
  · rwa [if_pos hcondition]
  · rwa [if_neg hcondition]

/-! ### Globals and memory -/

theorem yields_globalGet {x : UInt32} {type : GlobalType} (h : Shaped Γ ts σ)
    (hlinked : Linked b σ.objects) (hx : b.module.globalType? x = some type) :
    Yields (globalGet b x) σ fun _ => Shaped Γ (ts ++ [type.valueType]) := by
  obtain ⟨a, c, ha, hc, htype⟩ := hlinked.globals hx
  refine yields_get (yields_orTrap fun a' ha' => yields_orTrap fun c' hc' => ?_)
  have hcell : c' = c := by
    cases (globalAt_eq_ok ha).symm.trans ha'
    exact Option.some.inj ((Objects.global_eq_ok_iff.mp hc').symm.trans hc)
  refine yields_push h ?_
  rw [hcell, ← htype]
  exact ValueType.canonical_toSlot c.value

theorem yields_globalSet {x : UInt32} (h : Shaped Γ (ts ++ [t]) σ) :
    Yields (globalSet b x) σ fun _ => Shaped Γ ts := by
  refine (yields_pop h).bind fun _ _ ⟨_, h'⟩ => yields_orTrap fun _ _ => yields_get ?_
  refine yields_orTrap fun _ _ => yields_orTrap fun _ _ => ?_
  intro a σ' hrun
  cases hrun
  exact h'.withObjects _

theorem yields_memory {f : Address × Memory → Step α} {Q : α → State → Prop}
    (hf : ∀ a m, Yields (f (a, m)) σ Q) : Yields (memory b >>= f) σ Q := by
  unfold memory
  rw [bind_assoc]
  refine yields_orTrap fun a _ => ?_
  rw [bind_assoc]
  refine yields_get ?_
  rw [bind_assoc]
  exact yields_orTrap fun m _ => hf a m

theorem length_of_read {m : Memory} {offset count : Nat} {data : List UInt8}
    (h : m.read offset count = .ok data) : data.length = count := by
  rw [Memory.read] at h
  by_cases hbounds : m.inBounds offset count
  · rw [if_pos hbounds] at h
    cases h
    rw [List.length_map, List.length_range]
  · rw [if_neg hbounds] at h
    cases h

theorem yields_load {m : MemArg} {count : Nat} {decode : Nat → UInt64}
    (h : Shaped Γ (ts ++ [.i32]) σ)
    (hdecode : ∀ data : List UInt8, data.length = count →
      t.Canonical (decode (LittleEndian.decode data))) :
    Yields (load b m count decode) σ fun _ => Shaped Γ (ts ++ [t]) := by
  refine (yields_pop h).bind fun _ _ ⟨_, h'⟩ => yields_memory fun _ _ => ?_
  exact yields_orTrap fun data hread => yields_push h' (hdecode data (length_of_read hread))

theorem yields_store {m : MemArg} {count : Nat} (h : Shaped Γ (ts ++ [.i32] ++ [t]) σ) :
    Yields (store b m count) σ fun _ => Shaped Γ ts := by
  refine (yields_pop h).bind fun slot _ ⟨_, h₁⟩ => (yields_pop h₁).bind fun base _ ⟨_, h₂⟩ => ?_
  refine yields_memory fun a memory => ?_
  dsimp only
  by_cases hbounds : memory.inBounds (address m base) count
  · rw [if_pos hbounds]
    intro a σ' hrun
    cases hrun
    exact h₂.withObjects _
  · rw [if_neg hbounds]
    exact yields_throw _ _

theorem yields_memorySize (h : Shaped Γ ts σ) :
    Yields (memorySize b) σ fun _ => Shaped Γ (ts ++ [.i32]) :=
  yields_memory fun _ memory => yields_push h (ValueType.canonical_toUInt64 _ memory.size)

theorem yields_memoryGrow (h : Shaped Γ (ts ++ [.i32]) σ) :
    Yields (memoryGrow b) σ fun _ => Shaped Γ (ts ++ [.i32]) := by
  refine (yields_pop h).bind fun delta _ ⟨_, h'⟩ => yields_memory fun a memory => ?_
  dsimp only
  cases memory.grow delta.toUInt32 with
  | error e => exact yields_push h' fun _ => by decide
  | ok grown =>
    refine Yields.bind (P := fun _ => Shaped Γ ts) ?_ fun _ _ h'' =>
      yields_push h'' (ValueType.canonical_toUInt64 _ grown.1)
    intro a σ' hrun
    cases hrun
    exact h'.withObjects _

/-! ### Numeric operators -/

theorem yields_operate {f : Operator} (hgives : f.Gives t) (hps : ps.length = arity f)
    (h : Shaped Γ (ts ++ ps) σ) : Yields (operate f) σ fun _ => Shaped Γ (ts ++ [t]) := by
  cases f with
  | unary eval =>
    obtain ⟨p, rfl⟩ := List.length_eq_one_iff.mp hps
    refine (yields_pop h).bind fun a _ ⟨_, h'⟩ => ?_
    exact yields_orTrap fun slot heval => yields_push h' (hgives heval)
  | binary eval =>
    obtain ⟨p, q, rfl⟩ := List.length_eq_two.mp hps
    rw [List.append_cons] at h
    refine (yields_pop h).bind fun a' _ ⟨_, h₁⟩ => (yields_pop h₁).bind fun a _ ⟨_, h₂⟩ => ?_
    exact yields_orTrap fun slot heval => yields_push h₂ (hgives heval)

/-! ### Instructions -/

theorem yields_access {op : Opcode} {arg : MemArg} {width : Nat} {sig : FuncType}
    (hwidth : op.accessBytes? = some width) (hsig : op.signature? = some sig)
    (h : Shaped Γ (ts ++ sig.params) σ) :
    Yields (simple b op (.memArg arg)) σ fun _ => Shaped Γ (ts ++ sig.results) := by
  cases op <;> simp only [Opcode.signature?, reduceCtorEq, Option.some.injEq] at hsig <;>
    subst hsig
  case load t => exact yields_load h fun data hdata => ValueType.canonical_decode hdata
  case loadPart w p s => exact yields_load h fun data _ => ValueType.canonical_extendPart p s _
  case store t =>
    rw [List.append_cons] at h
    rw [List.append_nil]
    exact yields_store h
  case storePart w p =>
    rw [List.append_cons] at h
    rw [List.append_nil]
    exact yields_store h
  all_goals cases hwidth

/-- A typed instruction without control leaves canonical slots of the types that its rule
promises. -/
theorem yields_simple {op : Opcode} {imm : Immediate} {rs : List ValueType}
    (htyped : HasType Γ (.plain op imm) ps rs) (hsimple : isSimple op = true)
    (hmodule : Γ.module = b.module) (hlinked : Linked b σ.objects) (h : Shaped Γ (ts ++ ps) σ) :
    Yields (simple b op imm) σ fun _ => Shaped Γ (ts ++ rs) := by
  cases htyped with
  | nop => exact yields_pure h
  | drop =>
    rw [List.append_nil]
    exact (yields_pop h).bind fun _ _ ⟨_, h'⟩ => yields_pure h'
  | @select _ t =>
    refine yields_select ?_
    rwa [List.append_assoc, List.append_assoc]
  | localGet hx =>
    rw [List.append_nil] at h
    exact yields_localGet h hx
  | localSet hx =>
    rw [List.append_nil]
    exact (yields_pop h).bind fun _ _ ⟨hslot, h'⟩ => yields_assign h' hx hslot
  | localTee hx => exact yields_localTee h hx
  | globalGet hx =>
    rw [List.append_nil] at h
    rw [← Module.globalType?_eq, hmodule] at hx
    exact yields_globalGet h hlinked hx
  | globalSet hx hmutable =>
    rw [List.append_nil]
    exact yields_globalSet h
  | memorySize =>
    rw [List.append_nil] at h
    exact yields_memorySize h
  | memoryGrow => exact yields_memoryGrow h
  | const =>
    rw [List.append_nil] at h
    exact yields_push h (ValueType.canonical_toSlot _)
  | access hwidth hsig => exact yields_access (Opcode.accessBytes?_eq_some_iff.mpr hwidth) hsig h
  | operator hwidth hsig =>
    replace hwidth := Opcode.accessBytes?_eq_none_iff.mpr hwidth
    obtain ⟨f, hf, hrun, -, hparams, hresults⟩ := exists_operator (b := b) hwidth hsig
    obtain ⟨t, ht⟩ := List.length_eq_one_iff.mp hresults
    rw [hrun, ht]
    exact yields_operate (Opcode.gives_operator hf hsig (ht ▸ List.mem_singleton_self t)) hparams h
  | @truncSat _ t =>
    refine yields_operate (f := .unary fun a => .ok (t.eval a)) ?_ rfl h
    intro a slot heval
    cases heval
    exact t.canonical_eval a
  | _ => cases hsimple

/-- An indirect call takes the index of the function from the operands. -/
theorem yields_selected {typeIndex : UInt32} (h : Shaped Γ (ts ++ [.i32]) σ) :
    Yields (selected b typeIndex) σ fun _ => Shaped Γ ts := by
  refine (yields_pop h).bind fun slot _ ⟨_, h'⟩ => yields_orTrap fun _ _ => yields_get ?_
  refine yields_orTrap fun _ _ => yields_orTrap fun entry _ => ?_
  cases entry with
  | none => exact yields_throw _ _
  | some f =>
    dsimp only
    cases b.module.types[typeIndex.toNat]? with
    | none => exact yields_throw _ _
    | some expected =>
      dsimp only
      by_cases htype : f.type ≠ expected
      · rw [if_pos htype]
        exact yields_throw _ _
      · rw [if_neg htype]
        exact yields_pure h'

end Wasm.Structured
