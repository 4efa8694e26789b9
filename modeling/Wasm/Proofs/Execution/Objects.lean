import Mathlib.Logic.Relation
import Wasm.Store

/-!
# What execution keeps of the objects

Memories and tables never go away, a cell keeps its type, and no instruction writes to a table.  So
an instance whose indices are bound to objects of the right kinds and types stays so.  A host
function can change tables too, but puts no other functions in them than those it can refer to.
-/

namespace Wasm

/-- The second objects may come after the first ones in a run. -/
structure Objects.Later (o o' : Objects) : Prop where
  memories : o.memories.size ≤ o'.memories.size
  tables : o'.tables = o.tables
  globals : ∀ {a : Address} {c : Cell}, o.globals[a]? = some c →
    ∃ c', o'.globals[a]? = some c' ∧ c'.type = c.type

namespace Objects

theorem later_refl (o : Objects) : o.Later o :=
  ⟨Nat.le_refl _, rfl, fun {_ c} h => ⟨c, h, rfl⟩⟩

theorem Later.trans {o₁ o₂ o₃ : Objects} (h : o₁.Later o₂) (h' : o₂.Later o₃) : o₁.Later o₃ := by
  refine ⟨Nat.le_trans h.memories h'.memories, h'.tables.trans h.tables, fun {a c} hc => ?_⟩
  obtain ⟨c', hc', htype⟩ := h.globals hc
  obtain ⟨c'', hc'', htype'⟩ := h'.globals hc'
  exact ⟨c'', hc'', htype'.trans htype⟩

theorem later_putMemory (o : Objects) (a : Address) (m : Memory) : o.Later (o.putMemory a m) :=
  ⟨Nat.le_of_eq (Array.size_setIfInBounds ..).symm, rfl, fun {_ c} h => ⟨c, h, rfl⟩⟩

theorem later_putBytes (o : Objects) (a : Address) (offset : Nat) (data : List UInt8) :
    o.Later (o.putBytes a offset data) :=
  ⟨Nat.le_of_eq (Array.size_modify ..).symm, rfl, fun {_ c} h => ⟨c, h, rfl⟩⟩

theorem later_putGlobal {o : Objects} {a : Address} {c c' : Cell} (h : o.globals[a]? = some c)
    (htype : c'.type = c.type) : o.Later (o.putGlobal a c') := by
  refine ⟨Nat.le_refl _, rfl, fun {a' c₁} hc₁ => ?_⟩
  show ∃ c₂, (o.globals.setIfInBounds a c')[a']? = some c₂ ∧ c₂.type = c₁.type
  rw [Array.getElem?_setIfInBounds]
  by_cases ha : a = a'
  · subst ha
    rw [if_pos rfl, if_pos (Array.getElem?_eq_some_iff.mp h).1]
    obtain rfl := Option.some.inj (h.symm.trans hc₁)
    exact ⟨c', rfl, htype⟩
  · rw [if_neg ha]
    exact ⟨c₁, hc₁, rfl⟩

theorem memory_eq_ok_iff {o : Objects} {a : Address} {m : Memory} :
    o.memory a = .ok m ↔ o.memories[a]? = some m := by
  unfold memory
  cases o.memories[a]? <;> simp

theorem table_eq_ok_iff {o : Objects} {a : Address} {t : Table} :
    o.table a = .ok t ↔ o.tables[a]? = some t := by
  unfold table
  cases o.tables[a]? <;> simp

theorem global_eq_ok_iff {o : Objects} {a : Address} {c : Cell} :
    o.global a = .ok c ↔ o.globals[a]? = some c := by
  unfold global
  cases o.globals[a]? <;> simp

theorem setGlobal_eq_ok_iff {o o' : Objects} {a : Address} {v : Value} : o.setGlobal a v = .ok o' ↔
    ∃ c c', o.global a = .ok c ∧ c.set v = .ok c' ∧ o' = o.putGlobal a c' := by
  have hrun : o.setGlobal a v = (o.global a).bind fun c => (c.set v).bind fun c' =>
    .ok (o.putGlobal a c') := rfl
  rw [hrun]
  cases o.global a with
  | error t => simp [Except.bind]
  | ok c => cases hset : c.set v <;> simp [Except.bind, hset, eq_comm]

/-- Setting a global keeps the types of all cells. -/
theorem later_setGlobal {o o' : Objects} {a : Address} {v : Value}
    (h : o.setGlobal a v = .ok o') : o.Later o' := by
  obtain ⟨c, c', hc, hset, rfl⟩ := setGlobal_eq_ok_iff.mp h
  exact later_putGlobal (global_eq_ok_iff.mp hc) (Cell.type_of_set hset)

end Objects

/-- The second objects are the first ones and perhaps more; tables may have been written. -/
structure Objects.Extends (o o' : Objects) : Prop where
  memories : o.memories.size ≤ o'.memories.size
  tables : o.tables.size ≤ o'.tables.size
  globals : ∀ {a : Address} {c : Cell}, o.globals[a]? = some c →
    ∃ c', o'.globals[a]? = some c' ∧ c'.type = c.type

theorem Objects.extends_refl (o : Objects) : o.Extends o :=
  ⟨Nat.le_refl _, Nat.le_refl _, fun {_ c} h => ⟨c, h, rfl⟩⟩

theorem Objects.Extends.trans {o₁ o₂ o₃ : Objects} (h : o₁.Extends o₂) (h' : o₂.Extends o₃) :
    o₁.Extends o₃ := by
  refine ⟨Nat.le_trans h.memories h'.memories, Nat.le_trans h.tables h'.tables, fun {a c} hc => ?_⟩
  obtain ⟨c', hc', htype⟩ := h.globals hc
  obtain ⟨c'', hc'', htype'⟩ := h'.globals hc'
  exact ⟨c'', hc'', htype'.trans htype⟩

theorem Objects.Later.extends {o o' : Objects} (h : o.Later o') : o.Extends o' :=
  ⟨h.memories, Nat.le_of_eq (congrArg Array.size h.tables.symm), h.globals⟩

/-! ### Writes -/

/-- One write: a global is set, bytes are put into a memory, or a memory grows. -/
inductive Objects.Write (o : Objects) : Objects → Prop where
  | global {o' : Objects} {a : Address} {v : Value} (h : o.setGlobal a v = .ok o') : Write o o'
  | bytes {o' : Objects} {a : Address} {offset : Nat} {data : List UInt8}
      (h : o.writeMemory a offset data = .ok o') : Write o o'
  | grow {a : Address} {m m' : Memory} {delta old : UInt32} (hm : o.memory a = .ok m)
      (h : m.grow delta = .ok (old, m')) : Write o (o.putMemory a m')

/-- Some writes, one after another. -/
abbrev Objects.Writes : Objects → Objects → Prop :=
  Relation.ReflTransGen Objects.Write

namespace Objects

variable {o o' : Objects} {a : Address} {offset : Nat} {data : List UInt8}

theorem writeMemory_eq_ok_iff : o.writeMemory a offset data = .ok o' ↔
    ∃ m, o.memory a = .ok m ∧ m.inBounds offset data.length ∧ o' = o.putBytes a offset data := by
  have hrun : o.writeMemory a offset data = (o.memory a).bind fun m =>
    if m.inBounds offset data.length then .ok (o.putBytes a offset data)
    else .error (m.outOfBounds offset data.length) := rfl
  rw [hrun]
  cases o.memory a with
  | error t => simp [Except.bind]
  | ok m =>
    rw [Except.bind]
    split <;> simp [*, eq_comm]

theorem Write.later (h : o.Write o') : o.Later o' := by
  cases h with
  | global h => exact later_setGlobal h
  | bytes h =>
    obtain ⟨m, -, -, rfl⟩ := writeMemory_eq_ok_iff.mp h
    exact later_putBytes ..
  | grow => exact later_putMemory ..

theorem Writes.later (h : o.Writes o') : o.Later o' := by
  induction h with
  | refl => exact later_refl o
  | tail _ hwrite ih => exact ih.trans hwrite.later

/-- The cells that cannot be set are the same in the second objects. -/
def Fixes (o o' : Objects) : Prop :=
  ∀ {a : Address} {c : Cell}, o.globals[a]? = some c → c.isMutable = false →
    o'.globals[a]? = some c

theorem fixes_of_globals (h : o'.globals = o.globals) : o.Fixes o' :=
  fun {_ _} hc _ => by rw [h, hc]

theorem Fixes.trans {o'' : Objects} (h : o.Fixes o') (h' : o'.Fixes o'') : o.Fixes o'' :=
  fun {_ _} hc himmutable => h' (h hc himmutable) himmutable

theorem Write.fixes (h : o.Write o') : o.Fixes o' := by
  cases h with
  | bytes h =>
    obtain ⟨m, -, -, rfl⟩ := writeMemory_eq_ok_iff.mp h
    exact fixes_of_globals rfl
  | grow => exact fixes_of_globals rfl
  | @global _ a v h =>
    obtain ⟨c, c', hc, hset, rfl⟩ := setGlobal_eq_ok_iff.mp h
    intro a' c₁ hc₁ himmutable
    show (o.globals.setIfInBounds a c')[a']? = some c₁
    rw [Array.getElem?_setIfInBounds]
    by_cases ha : a = a'
    · subst ha
      -- An immutable cell refuses every value.
      obtain rfl := Option.some.inj ((global_eq_ok_iff.mp hc).symm.trans hc₁)
      rw [Cell.set, if_pos himmutable] at hset
      cases hset
    · rw [if_neg ha, hc₁]

theorem Writes.fixes (h : o.Writes o') : o.Fixes o' := by
  induction h with
  | refl => exact fixes_of_globals rfl
  | tail _ hwrite ih => exact ih.trans hwrite.fixes

end Objects

/-! ### Changes of tables -/

/-- Every function in a table satisfies the condition. -/
def Objects.Slots (G : FuncRef → Prop) (o : Objects) : Prop :=
  ∀ {a : Address} {table : Table} {i : Nat} {f : FuncRef}, o.tables[a]? = some table →
    table.slots[i]? = some (some f) → G f

/-- One change: a write, a table grows, or a slot is set.  Only functions that satisfy the condition
are put in slots. -/
inductive Objects.Change (G : FuncRef → Prop) (o : Objects) : Objects → Prop where
  | write {o' : Objects} (h : o.Write o') : Change G o o'
  | growTable {a : Address} {t t' : Table} {delta old : UInt32} (ht : o.table a = .ok t)
      (h : t.grow delta = .ok (old, t')) : Change G o (o.putTable a t')
  | setSlot {a : Address} {t t' : Table} {index : UInt32} {f : Option FuncRef}
      (ht : o.table a = .ok t) (h : t.set index f = .ok t') (hf : ∀ g, f = some g → G g) :
      Change G o (o.putTable a t')

/-- Some changes, one after another. -/
abbrev Objects.Changes (G : FuncRef → Prop) : Objects → Objects → Prop :=
  Relation.ReflTransGen (Objects.Change G)

namespace Objects

variable {G : FuncRef → Prop} {o o' : Objects} {a : Address} {t : Table}

theorem Writes.changes (h : o.Writes o') : o.Changes G o' := by
  induction h with
  | refl => exact .refl
  | tail _ hwrite ih => exact ih.tail (.write hwrite)

theorem extends_putTable (o : Objects) (a : Address) (t : Table) : o.Extends (o.putTable a t) :=
  ⟨Nat.le_refl _, Nat.le_of_eq (Array.size_setIfInBounds ..).symm, fun {_ c} hc => ⟨c, hc, rfl⟩⟩

theorem Change.extends (h : o.Change G o') : o.Extends o' := by
  cases h with
  | write h => exact h.later.extends
  | growTable => exact extends_putTable ..
  | setSlot => exact extends_putTable ..

theorem Changes.extends (h : o.Changes G o') : o.Extends o' := by
  induction h with
  | refl => exact extends_refl o
  | tail _ hchange ih => exact ih.trans hchange.extends

theorem Change.fixes (h : o.Change G o') : o.Fixes o' := by
  cases h with
  | write h => exact h.fixes
  | growTable => exact fixes_of_globals rfl
  | setSlot => exact fixes_of_globals rfl

theorem Changes.fixes (h : o.Changes G o') : o.Fixes o' := by
  induction h with
  | refl => exact fixes_of_globals rfl
  | tail _ hchange ih => exact ih.trans hchange.fixes

/-- A function in a table of the second objects satisfies the condition, or it was in that slot
before. -/
def Admits (G : FuncRef → Prop) (o o' : Objects) : Prop :=
  ∀ ⦃a : Address⦄ ⦃t' : Table⦄ ⦃i : Nat⦄ ⦃f : FuncRef⦄, o'.tables[a]? = some t' →
    t'.slots[i]? = some (some f) →
      G f ∨ ∃ t, o.tables[a]? = some t ∧ t.slots[i]? = some (some f)

theorem admits_of_tables (h : o'.tables = o.tables) : o.Admits G o' :=
  fun _ t _ _ ht hslot => .inr ⟨t, h ▸ ht, hslot⟩

theorem Admits.trans {o'' : Objects} (h : o.Admits G o') (h' : o'.Admits G o'') :
    o.Admits G o'' := by
  intro a t'' i f ht'' hslot
  rcases h' ht'' hslot with hG | ⟨t', ht', hslot'⟩
  · exact .inl hG
  · exact h ht' hslot'

/-- Replacing a table by one that admits nothing else. -/
theorem admits_putTable {t' : Table} (ht : o.table a = .ok t)
    (h : ∀ {i : Nat} {f : FuncRef}, t'.slots[i]? = some (some f) →
      G f ∨ t.slots[i]? = some (some f)) : o.Admits G (o.putTable a t') := by
  intro a' u i f hu hslot
  replace hu : (o.tables.setIfInBounds a t')[a']? = some u := hu
  rw [Array.getElem?_setIfInBounds] at hu
  split at hu
  · next ha =>
    subst ha
    split at hu
    · cases hu
      exact (h hslot).imp_right fun hold => ⟨t, table_eq_ok_iff.mp ht, hold⟩
    · cases hu
  · exact .inr ⟨u, hu, hslot⟩

theorem Change.admits (h : o.Change G o') : o.Admits G o' := by
  cases h with
  | write h => exact admits_of_tables h.later.tables
  | growTable ht h =>
    refine admits_putTable ht fun {i f} hslot => .inr ?_
    unfold Table.grow at h
    split at h
    · cases h
      rw [Array.getElem?_append] at hslot
      split at hslot
      · exact hslot
      · -- The new slots are empty.
        rw [Array.getElem?_replicate] at hslot
        split at hslot <;> cases hslot
    · cases h
  | setSlot ht h hf =>
    refine admits_putTable ht fun {i g} hslot => ?_
    unfold Table.set at h
    split at h
    · cases h
      rw [Array.getElem?_setIfInBounds] at hslot
      split at hslot
      · exact .inl (hf g (Option.some.inj hslot))
      · exact .inr hslot
    · cases h

theorem Changes.admits (h : o.Changes G o') : o.Admits G o' := by
  induction h with
  | refl => exact admits_of_tables rfl
  | tail _ hchange ih => exact ih.trans hchange.admits

/-- What all functions in tables satisfy stays so. -/
theorem Admits.slots (h : o.Admits G o') (hslots : o.Slots G) : o'.Slots G := by
  intro a t' i f ht' hslot
  rcases h ht' hslot with hG | ⟨t, ht, hslot⟩
  · exact hG
  · exact hslots ht hslot

end Objects

/-- The indices of an instance stand for objects of the declared kinds and types. -/
structure Linked (b : Bindings) (o : Objects) : Prop where
  globals : ∀ {x : UInt32} {type : GlobalType}, b.module.globalType? x = some type →
    ∃ a c, b.globals[x.toNat]? = some a ∧ o.globals[a]? = some c ∧ c.type = type
  memory : 0 < b.module.count .memory → ∃ a, b.memory = some a ∧ a < o.memories.size
  table : 0 < b.module.count .table → ∃ a, b.table = some a ∧ a < o.tables.size

theorem Linked.extends {b : Bindings} {o o' : Objects} (h : Linked b o) (hextends : o.Extends o') :
    Linked b o' := by
  refine ⟨fun {x type} htype => ?_, fun hcount => ?_, fun hcount => ?_⟩
  · obtain ⟨a, c, ha, hc, hct⟩ := h.globals htype
    obtain ⟨c', hc', hct'⟩ := hextends.globals hc
    exact ⟨a, c', ha, hc', hct'.trans hct⟩
  · obtain ⟨a, ha, hlt⟩ := h.memory hcount
    exact ⟨a, ha, Nat.lt_of_lt_of_le hlt hextends.memories⟩
  · obtain ⟨a, ha, hlt⟩ := h.table hcount
    exact ⟨a, ha, Nat.lt_of_lt_of_le hlt hextends.tables⟩

theorem Linked.later {b : Bindings} {o o' : Objects} (h : Linked b o) (hlater : o.Later o') :
    Linked b o' :=
  h.extends hlater.extends

/-! ### Internal errors -/

/-- An error that only code which has not been checked can cause: one of validation, or a trap for
an operand, a function, a global or an object that is not there. -/
def Error.IsInternal (e : Error) : Prop :=
  e.category = .validation ∨ e.code ∈
    [Code.stackUnderflow, Code.undefinedFunction, Code.invalidGlobalAccess, Code.missingInstance]

instance (e : Error) : Decidable e.IsInternal :=
  inferInstanceAs (Decidable (_ ∨ _))

theorem Trap.isInternal_error (t : Trap) : t.error.IsInternal ↔
    t.code ∈ [Code.stackUnderflow, Code.undefinedFunction, Code.invalidGlobalAccess,
      Code.missingInstance] := by
  rw [Error.IsInternal, t.category_error]
  exact or_iff_right (by decide)

/-- Category and code say whether an error is internal. -/
theorem Error.not_isInternal (category : Category) (code : Nat) {message : String}
    (h : ¬ (Error.mk category code "").IsInternal) :
    ¬ (Error.mk category code message).IsInternal := h

end Wasm
