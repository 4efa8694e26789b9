import Wasm.Proofs.Safety.Setup

/-!
# Constant expressions

Validation reads the type of a constant off the module; instantiation reads its value off the cells
of the globals that exist by then.  What validation accepts has one of two forms (`Accepted`), and
both sides agree on these as soon as the visible globals have cells of their types.  The values of
the globals of a module follow from the cells of the imported ones alone (`initialCells`).
-/

namespace Wasm

/-- The constant expressions of a module: initial values of globals, and offsets of segments. -/
def Module.constants (m : Module) : List Expr :=
  m.globals.map Global.init ++ m.elements.map Element.offset ++ m.data.map Data.offset

theorem Binary.ConstantsRead.suited {m : Module} (h : ConstantsRead m) {e : Expr}
    (he : e ∈ m.constants) : Instr.AllSuited e := by
  simp only [Module.constants, List.mem_append, List.mem_map] at he
  rcases he with (⟨g, hg, rfl⟩ | ⟨s, hs, rfl⟩) | ⟨d, hd, rfl⟩
  · exact h.globals g hg
  · exact h.elements s hs
  · exact h.data d hd

theorem Module.length_importedGlobals (m : Module) :
    m.importedGlobals.length = m.importCount .global := by
  rw [importedGlobals, importCount, List.length_filterMap_eq_countP]
  refine List.countP_congr fun imp _ => ?_
  cases imp.desc <;> simp [ImportDesc.globalType?, ImportDesc.kind]

theorem Module.length_globalTypes (m : Module) : m.globalTypes.length = m.count .global := by
  rw [globalTypes, List.length_append, length_importedGlobals, List.length_map]
  rfl

namespace Instantiation

/-! ### What validation accepts -/

/-- The constants of a type: a constant instruction, or the value of an immutable global among the
first `visible`. -/
inductive Accepted (m : Module) (t : ValueType) (visible : Nat) : Expr → Prop where
  | const (v : Value) (h : v.type = t) : Accepted m t visible [.plain (.const t) (.value v)]
  | globalGet {x : UInt32} {type : GlobalType} (hvisible : x.toNat < visible)
      (htype : m.globalTypes[x.toNat]? = some type) (himmutable : type.isMutable = false)
      (h : type.valueType = t) : Accepted m t visible [.plain .globalGet (.index x)]

theorem accepted_of_constant {m : Module} {t : ValueType} {visible : Nat} {e : Expr}
    (hsuited : Instr.AllSuited e) (h : Validation.constant m t visible e = .ok ()) :
    Accepted m t visible e := by
  match e, hsuited, h with
  | [], _, h => cases h
  | _ :: _ :: _, _, h => cases h
  | [i], .cons hi _, h =>
    obtain ⟨actual, hactual, hexpected⟩ := Validation.exists_of_bind h
    have heq : actual = t := by
      split at hexpected
      · cases hexpected
      · next heq => exact Decidable.not_not.mp heq
    subst heq
    cases hi with
    | block | loop | ifElse => cases hactual
    | @plain op imm himm =>
      unfold Validation.constantType at hactual
      split at hactual
      · next t hop =>
        cases hop
        cases hactual
        cases imm with
        | value v => exact .const v (eq_of_beq himm)
        | _ => cases himm
      · next x hop heq =>
        cases heq
        obtain ⟨_, hvisible, hactual⟩ := Validation.exists_of_bind hactual
        have hvisible := Validation.indexBelow_eq_ok hvisible
        cases htype : m.globalType? x with
        | none =>
          rw [htype] at hactual
          cases hactual
        | some type =>
          rw [htype] at hactual
          dsimp only at hactual
          split at hactual
          · cases hactual
          · next himmutable =>
            cases hactual
            rw [Module.globalType?_eq] at htype
            obtain rfl : op = .globalGet := hop
            exact .globalGet hvisible htype (Bool.eq_false_of_not_eq_true himmutable) rfl
      · cases hactual

theorem eachFrom_at {α : Type} {check : Nat → α → Except Error Unit} {index : Nat} {l : List α}
    (h : Validation.eachFrom check index l = .ok ()) {k : Nat} {a : α} (ha : l[k]? = some a) :
    check (index + k) a = .ok () := by
  induction l generalizing index k with
  | nil => cases ha
  | cons b rest ih =>
    rw [Validation.eachFrom] at h
    obtain ⟨hfirst, hrest⟩ := Validation.and_of_seq h
    cases k with
    | zero =>
      cases ha
      exact hfirst
    | succ k =>
      have hcheck := ih hrest ha
      rw [Nat.add_assoc, Nat.add_comm 1 k] at hcheck
      exact hcheck

theorem forall_of_forM {α : Type} {check : α → Except Error Unit} {l : List α}
    (h : l.forM check = .ok ()) {a : α} (ha : a ∈ l) : check a = .ok () := by
  induction l with
  | nil => cases ha
  | cons b rest ih =>
    obtain ⟨hfirst, hrest⟩ := Validation.and_of_seq h
    cases ha with
    | head => exact hfirst
    | tail _ ha => exact ih hrest ha

/-- A module that has passed validation, as far as instantiating it depends on that. -/
structure Checked (m : Module) : Prop where
  passed : Validation.Passed m
  globals : ∀ {k : Nat} {g : Global}, m.globals[k]? = some g →
    Accepted m g.type.valueType (m.importCount .global + k) g.init
  data : ∀ {d : Data}, d ∈ m.data →
    0 < m.count .memory ∧ Accepted m .i32 (m.count .global) d.offset
  elements : ∀ {e : Element}, e ∈ m.elements →
    0 < m.count .table ∧ Accepted m .i32 (m.count .global) e.offset ∧
      ∀ x ∈ e.funcs, x.toNat < m.count .func
  tables : m.count .table ≤ 1
  memories : m.count .memory ≤ 1

/-- A valid module has at most one table and at most one memory. -/
theorem counts_of_module {m : Module} (h : Validation.module m = .ok ()) :
    m.count .table ≤ 1 ∧ m.count .memory ≤ 1 := by
  obtain ⟨hstructure, -⟩ := Validation.and_of_seq h
  obtain ⟨-, h⟩ := Validation.and_of_seq hstructure
  obtain ⟨-, h⟩ := Validation.and_of_seq h
  obtain ⟨hsingle, -⟩ := Validation.and_of_seq h
  unfold Validation.singleTableAndMemory at hsingle
  by_cases htable : 1 < m.count .table
  · rw [if_pos htable] at hsingle
    cases hsingle
  · rw [if_neg htable] at hsingle
    by_cases hmemory : 1 < m.count .memory
    · rw [if_pos hmemory] at hsingle
      cases hsingle
    · exact ⟨Nat.le_of_not_lt htable, Nat.le_of_not_lt hmemory⟩

theorem checked_of_module {m : Module} (hread : Binary.ConstantsRead m)
    (h : Validation.module m = .ok ()) : Checked m := by
  have hpassed := Validation.passed_of_module h
  obtain ⟨htables, hmemories⟩ := counts_of_module h
  obtain ⟨hstructure, -⟩ := Validation.and_of_seq h
  obtain ⟨-, h⟩ := Validation.and_of_seq hstructure
  obtain ⟨-, h⟩ := Validation.and_of_seq h
  obtain ⟨-, h⟩ := Validation.and_of_seq h
  obtain ⟨-, h⟩ := Validation.and_of_seq h
  obtain ⟨-, h⟩ := Validation.and_of_seq h
  obtain ⟨hglobals, h⟩ := Validation.and_of_seq h
  obtain ⟨-, h⟩ := Validation.and_of_seq h
  obtain ⟨-, h⟩ := Validation.and_of_seq h
  obtain ⟨hsegments, -⟩ := Validation.and_of_seq h
  obtain ⟨helements, hdata⟩ := Validation.and_of_seq hsegments
  refine ⟨hpassed, fun {k g} hg => ?_, fun {d} hd => ?_, fun {e} he => ?_, htables, hmemories⟩
  · have hcheck := Validation.withContext_eq_ok (eachFrom_at hglobals hg)
    exact accepted_of_constant (hread.globals g (List.mem_of_getElem? hg)) hcheck
  · obtain ⟨k, hcheck⟩ := Validation.eachFrom_eq_ok hdata hd
    obtain ⟨hmemory, hoffset⟩ := Validation.and_of_seq (Validation.withContext_eq_ok hcheck)
    have hlt := Validation.indexBelow_eq_ok hmemory
    exact ⟨Nat.lt_of_le_of_lt (Nat.zero_le _) hlt,
      accepted_of_constant (hread.data d hd) hoffset⟩
  · obtain ⟨k, hcheck⟩ := Validation.eachFrom_eq_ok helements he
    obtain ⟨htable, h⟩ := Validation.and_of_seq (Validation.withContext_eq_ok hcheck)
    obtain ⟨hoffset, hfuncs⟩ := Validation.and_of_seq h
    have hlt := Validation.indexBelow_eq_ok htable
    exact ⟨Nat.lt_of_le_of_lt (Nat.zero_le _) hlt,
      accepted_of_constant (hread.elements e he) hoffset,
      fun x hx => Validation.indexBelow_eq_ok (forall_of_forM hfuncs hx)⟩

/-! ### What instantiation evaluates -/

/-- The value of a constant among globals with the given cells. -/
def valueOf? (cells : List Cell) : Expr → Option Value
  | [.plain (.const _) (.value v)] => some v
  | [.plain .globalGet (.index x)] => (cells[x.toNat]?).map Cell.value
  | _ => none

/-- The cells of all globals, when those of the first ones are known: each defined global starts
with the value of its constant among the globals before it. -/
def initialCells (known : List Cell) : List Global → Option (List Cell)
  | [] => some known
  | g :: rest =>
    (valueOf? known g.init).bind fun v => initialCells (known ++ [⟨g.type.isMutable, v⟩]) rest

/-- The cells of the first globals of the module, by their addresses. -/
structure Cells (m : Module) (o : Objects) (addresses : Array Address) (cells : List Cell) :
    Prop where
  held : List.Forall₂ (fun a c => o.globals[a]? = some c) addresses.toList cells
  types : cells.map Cell.type <+: m.globalTypes

variable {m : Module} {o : Objects} {addresses : Array Address} {cells : List Cell}

theorem Cells.type_eq (h : Cells m o addresses cells) {k : Nat} {c : Cell}
    (hc : cells[k]? = some c) : m.globalTypes[k]? = some c.type := by
  obtain ⟨more, hmore⟩ := h.types
  have hlt : k < (cells.map Cell.type).length := by
    rw [List.length_map]
    exact (List.getElem?_eq_some_iff.mp hc).1
  rw [← hmore, List.getElem?_append_left hlt, List.getElem?_map, hc, Option.map_some]

theorem Cells.exists_address (h : Cells m o addresses cells) {k : Nat} {c : Cell}
    (hc : cells[k]? = some c) : ∃ a : Address, addresses[k]? = some a ∧ o.globals[a]? = some c := by
  obtain ⟨a, ha, hcell⟩ := Safety.exists_getElem? (Safety.forall₂_flip h.held) hc
  exact ⟨a, by rw [← Array.getElem?_toList]; exact ha, hcell⟩

/-- The cells stay where they are as long as no global is written. -/
theorem Cells.mono {o' : Objects} (h : Cells m o addresses cells)
    (hglobals : ∀ {a : Address} {c : Cell}, o.globals[a]? = some c → o'.globals[a]? = some c) :
    Cells m o' addresses cells :=
  ⟨h.held.imp fun _ _ h => hglobals h, h.types⟩

/-- Each of the first globals of the module has a cell of its type. -/
def Visible (m : Module) (o : Objects) (addresses : Array Address) (visible : Nat) : Prop :=
  ∀ k < visible, ∃ (a : Address) (c : Cell), addresses[k]? = some a ∧ o.globals[a]? = some c ∧
    m.globalTypes[k]? = some c.type

theorem Cells.visible (h : Cells m o addresses cells) : Visible m o addresses cells.length := by
  intro k hk
  obtain ⟨a, ha, hc⟩ := h.exists_address (List.getElem?_eq_getElem hk)
  exact ⟨a, _, ha, hc, h.type_eq (List.getElem?_eq_getElem hk)⟩

/-- A constant that validation accepts has a value of its type. -/
theorem Accepted.exists_value {t : ValueType} {visible : Nat} {e : Expr}
    (h : Accepted m t visible e) (hvisible : Visible m o addresses visible) :
    ∃ v, Instantiate.constant o addresses e = .ok v ∧ v.type = t := by
  cases h with
  | const v htype => exact ⟨v, if_pos htype, htype⟩
  | @globalGet x type hlt htype _ hvalue =>
    obtain ⟨a, c, ha, hc, hct⟩ := hvisible x.toNat hlt
    obtain rfl := Option.some.inj (htype.symm.trans hct)
    refine ⟨c.value, ?_, hvalue⟩
    simp only [Instantiate.constant, ha, Option.bind_some, hc]

/-- The value depends on the cells alone. -/
theorem valueOf?_eq {e : Expr} {v : Value} (h : Cells m o addresses cells)
    {t : ValueType} {visible : Nat} (haccepted : Accepted m t visible e)
    (hvisible : visible ≤ cells.length) (hv : Instantiate.constant o addresses e = .ok v) :
    valueOf? cells e = some v := by
  cases haccepted with
  | const v' htype =>
    cases (if_pos htype).symm.trans hv
    rfl
  | @globalGet x type hlt _ _ _ =>
    have hc := List.getElem?_eq_getElem (Nat.lt_of_lt_of_le hlt hvisible)
    obtain ⟨a, ha, hcell⟩ := h.exists_address hc
    simp only [Instantiate.constant, ha, Option.bind_some, hcell] at hv
    cases hv
    show (cells[x.toNat]?).map Cell.value = _
    rw [hc, Option.map_some]

end Instantiation

end Wasm
