import Mathlib.Data.List.Forall2
import Wasm.Instantiate
import Wasm.Proofs.Safety.Decoded
import Wasm.Proofs.Safety.Stores
import Wasm.Proofs.Safety.Validated

/-!
# Linked instances

Instantiation binds the indices of a module one after another: first what is imported, then what the
module defines.  The index spaces of the module and the lists of the instance go side by side, entry
by entry (`List.Forall₂`).
-/

namespace Wasm.Safety

open Structured (Wired)

/-! ### Entries side by side -/

theorem exists_getElem? {α β : Type} {R : α → β → Prop} {l : List α} {l' : List β}
    (h : List.Forall₂ R l l') {k : Nat} {a : α} (ha : l[k]? = some a) :
    ∃ b, l'[k]? = some b ∧ R a b := by
  induction h generalizing k with
  | nil => cases ha
  | cons hab _ ih =>
    cases k with
    | zero =>
      cases ha
      exact ⟨_, rfl, hab⟩
    | succ k => exact ih ha

theorem forall₂_flip {α β : Type} {R : α → β → Prop} {l : List α} {l' : List β}
    (h : List.Forall₂ R l l') : List.Forall₂ (fun b a => R a b) l' l :=
  List.Forall₂.flip h

theorem forall₂_concat {α β : Type} {R : α → β → Prop} {l : List α} {l' : List β} {a : α} {b : β}
    (h : List.Forall₂ R l l') (hab : R a b) : List.Forall₂ R (l ++ [a]) (l' ++ [b]) :=
  List.rel_append h (.cons hab .nil)

/-- The cell at an address has a type. -/
def HasCell (o : Objects) (type : GlobalType) (a : Address) : Prop :=
  ∃ c, o.globals[a]? = some c ∧ c.type = type

theorem HasCell.extends {o o' : Objects} {type : GlobalType} {a : Address}
    (h : HasCell o type a) (hextends : o.Extends o') : HasCell o' type a := by
  obtain ⟨c, hc, htype⟩ := h
  obtain ⟨c', hc', htype'⟩ := hextends.globals hc
  exact ⟨c', hc', htype'.trans htype⟩

/-! ### Imports -/

/-- A genuine reference of the type with an index. -/
def ImportedFunc (s : Store) (types : List FuncType) (t : UInt32) (f : Func) : Prop :=
  ∃ r, f = .imported r ∧ types[t.toNat]? = some r.type ∧ r.Genuine s

/-- The imports are bound to members of their types. -/
structure Imported (s : Store) (imports : List Import) (b : Bindings) : Prop where
  funcs : List.Forall₂ (ImportedFunc s b.module.types)
    (imports.filterMap fun i => i.desc.funcTypeIndex?) b.funcs.toList
  globals : List.Forall₂ (HasCell s.objects)
    (imports.filterMap fun i => i.desc.globalType?) b.globals.toList
  memory : 0 < imports.countP (·.desc.kind = .memory) →
    ∃ a, b.memory = some a ∧ a < s.objects.memories.size
  table : 0 < imports.countP (·.desc.kind = .table) →
    ∃ a, b.table = some a ∧ a < s.objects.tables.size

variable {s : Store} {m : Module} {b : Bindings} {a : Address}

/-- An import is resolved to a genuine member that it is compatible with. -/
theorem resolve_eq_ok {externals : Externals} {types : List FuncType} {imp : Import} {x : Member}
    (hsound : Sound s) (hexternals : ∀ {name p}, externals.lookup name = some p → p.Genuine s)
    (h : Instantiate.resolve s externals types imp = .ok x) :
    x.Genuine s ∧ Instantiate.isCompatible types s.objects imp.desc x = true := by
  unfold Instantiate.resolve at h
  split at h
  · cases h
  · next p hp =>
    split at h
    · cases h
    · next member hmember =>
      split at h
      · next hcompatible =>
        cases h
        exact ⟨genuine_provided? hsound (hexternals hp) hmember, hcompatible⟩
      · cases h

theorem lt_size_of_any {α : Type} {l : Array α} {k : Nat} {P : α → Bool}
    (h : (l[k]?).any P = true) : k < l.size := by
  refine Nat.lt_of_not_le fun hle => ?_
  rw [Array.getElem?_eq_none hle] at h
  cases h

theorem hasCell_of_any {o : Objects} {type : GlobalType}
    (h : (o.globals[a]?).any (fun c => c.type = type) = true) : HasCell o type a := by
  unfold HasCell
  cases hc : o.globals[a]? with
  | none =>
    rw [hc] at h
    cases h
  | some c =>
    rw [hc] at h
    exact ⟨c, rfl, of_decide_eq_true h⟩

/-- One more import adds functions and globals at the end, and it may be the memory or the table. -/
theorem Imported.concat {imports : List Import} {imp : Import} {b' : Bindings} {fs : List Func}
    {as : List Address} (h : Imported s imports b) (hmodule : b'.module = b.module)
    (hfs : b'.funcs.toList = b.funcs.toList ++ fs)
    (hfuncs : List.Forall₂ (ImportedFunc s b.module.types)
      ([imp].filterMap fun i => i.desc.funcTypeIndex?) fs)
    (has : b'.globals.toList = b.globals.toList ++ as)
    (hglobals : List.Forall₂ (HasCell s.objects) ([imp].filterMap fun i => i.desc.globalType?) as)
    (hmemory : b'.memory = b.memory ∧ imp.desc.kind ≠ .memory ∨
      ∃ a, b'.memory = some a ∧ a < s.objects.memories.size)
    (htable : b'.table = b.table ∧ imp.desc.kind ≠ .table ∨
      ∃ a, b'.table = some a ∧ a < s.objects.tables.size) :
    Imported s (imports ++ [imp]) b' := by
  constructor
  case funcs =>
    rw [List.filterMap_append, hmodule, hfs]
    exact List.rel_append h.funcs hfuncs
  case globals =>
    rw [List.filterMap_append, has]
    exact List.rel_append h.globals hglobals
  case memory =>
    rcases hmemory with ⟨hsame, hkind⟩ | hbound
    · rw [List.countP_append, List.countP_singleton, decide_eq_false hkind, hsame]
      exact h.memory
    · exact fun _ => hbound
  case table =>
    rcases htable with ⟨hsame, hkind⟩ | hbound
    · rw [List.countP_append, List.countP_singleton, decide_eq_false hkind, hsame]
      exact h.table
    · exact fun _ => hbound

/-- A member that is compatible with the next import is bound to it. -/
theorem Imported.bind {imports : List Import} {imp : Import} {x : Member}
    (h : Imported s imports b) (hx : x.Genuine s)
    (hcompatible : Instantiate.isCompatible b.module.types s.objects imp.desc x = true) :
    Imported s (imports ++ [imp]) (Instantiate.bind b x) := by
  rcases imp with ⟨module, name, desc⟩
  cases desc with
  | func t =>
    cases x with
    | func f =>
      have htype : b.module.types[t.toNat]? = some f.type := of_decide_eq_true hcompatible
      exact h.concat rfl Array.toList_push (.cons ⟨f, rfl, htype, hx⟩ .nil)
        (List.append_nil _).symm .nil (.inl ⟨rfl, nofun⟩) (.inl ⟨rfl, nofun⟩)
    | _ => cases hcompatible
  | global type =>
    cases x with
    | global a =>
      exact h.concat rfl (List.append_nil _).symm .nil Array.toList_push
        (.cons (hasCell_of_any hcompatible) .nil) (.inl ⟨rfl, nofun⟩) (.inl ⟨rfl, nofun⟩)
    | _ => cases hcompatible
  | memory required =>
    cases x with
    | memory a =>
      exact h.concat rfl (List.append_nil _).symm .nil (List.append_nil _).symm .nil
        (.inr ⟨a, rfl, lt_size_of_any hcompatible⟩) (.inl ⟨rfl, nofun⟩)
    | _ => cases hcompatible
  | table required =>
    cases x with
    | table a =>
      exact h.concat rfl (List.append_nil _).symm .nil (List.append_nil _).symm .nil
        (.inl ⟨rfl, nofun⟩) (.inr ⟨a, rfl, lt_size_of_any hcompatible⟩)
    | _ => cases hcompatible

/-- All imports, one after another. -/
theorem imported_of_imports {externals : Externals} {done rest : List Import} {b' : Bindings}
    (hsound : Sound s) (hexternals : ∀ {name p}, externals.lookup name = some p → p.Genuine s)
    (h : Imported s done b) (hrun : Instantiate.imports s externals b rest = .ok b') :
    Imported s (done ++ rest) b' ∧ b'.self = b.self ∧ b'.module = b.module ∧
      b'.config = b.config := by
  induction rest generalizing done b with
  | nil =>
    cases hrun
    rw [List.append_nil]
    exact ⟨h, rfl, rfl, rfl⟩
  | cons imp rest ih =>
    rw [Instantiate.imports] at hrun
    split at hrun
    · cases hrun
    · next x hx =>
      obtain ⟨hgenuine, hcompatible⟩ := resolve_eq_ok hsound hexternals hx
      obtain ⟨himported, hself, hmodule, hconfig⟩ := ih (h.bind hgenuine hcompatible) hrun
      rw [List.append_assoc] at himported
      obtain ⟨hself', hmodule', hconfig'⟩ : (Instantiate.bind b x).self = b.self ∧
          (Instantiate.bind b x).module = b.module ∧
          (Instantiate.bind b x).config = b.config := by
        cases x <;> exact ⟨rfl, rfl, rfl⟩
      exact ⟨himported, hself.trans hself', hmodule.trans hmodule', hconfig.trans hconfig'⟩

/-! ### Functions -/

/-- The entry of the function space with a type index: an import, or the body in the same place. -/
def FuncAt (s : Store) (m : Module) (t : UInt32) (f : Func) : Prop :=
  0 < m.importCount .func ∧ ImportedFunc s m.types t f ∨
    ∃ code : Code, (t, code) ∈ m.functions.zip m.codes ∧
      f = .defined ((m.types[t.toNat]?).getD {}) code.localCount code.body

theorem forall₂_zip {α β γ : Type} (g : α × β → γ) {l : List α} {l' : List β}
    (h : l.length = l'.length) :
    List.Forall₂ (fun a c => ∃ b, (a, b) ∈ l.zip l' ∧ c = g (a, b)) l ((l.zip l').map g) := by
  induction l generalizing l' with
  | nil => exact .nil
  | cons a l ih =>
    cases l' with
    | nil => cases h
    | cons b l' =>
      refine .cons ⟨b, List.mem_cons_self .., rfl⟩ ?_
      refine (ih (Nat.succ.inj h)).imp ?_
      rintro a' c ⟨b', hmem, rfl⟩
      exact ⟨b', List.mem_cons_of_mem _ hmem, rfl⟩

/-- The functions of the module follow the imported ones. -/
theorem forall₂_functions (h : Imported s b.module.imports b)
    (hcount : b.module.functions.length = b.module.codes.length) :
    List.Forall₂ (FuncAt s b.module) b.module.funcTypeIndices
      (Instantiate.functions b).funcs.toList := by
  show List.Forall₂ _ (b.module.importedFuncs ++ b.module.functions)
    (b.funcs ++ (List.map _ _).toArray).toList
  rw [Array.toList_append]
  refine List.rel_append ?_ ((forall₂_zip _ hcount).imp fun _ _ h => .inr h)
  rcases Nat.eq_zero_or_pos (b.module.importCount .func) with hnone | hsome
  · have hnil : b.module.importedFuncs = [] := by
      rw [← List.length_eq_zero_iff, Module.length_importedFuncs, hnone]
    have hfuncs : List.Forall₂ (ImportedFunc s b.module.types) b.module.importedFuncs
      b.funcs.toList := h.funcs
    rw [hnil] at hfuncs ⊢
    rw [List.forall₂_nil_left_iff.mp hfuncs]
    exact .nil
  · exact h.funcs.imp fun _ _ h => .inl ⟨hsome, h⟩

theorem getElem?_of_func {x : UInt32} {f : Func} (h : b.func x = .ok f) :
    b.funcs.toList[x.toNat]? = some f := by
  rw [Array.getElem?_toList]
  unfold Bindings.func at h
  split at h
  · next hf =>
    cases h
    exact hf
  · cases h

/-- The functions of the module are bound, and their bodies are typed. -/
theorem wired_of_functions (hread : Binary.CodesRead b.module)
    (hpassed : Validation.Passed b.module)
    (hfuncs : List.Forall₂ (FuncAt s b.module) b.module.funcTypeIndices b.funcs.toList) :
    Wired b := by
  constructor
  case func =>
    intro x type htype
    obtain ⟨t, ht, htype⟩ := Option.bind_eq_some_iff.mp htype
    rw [Module.funcTypeIndex?_eq] at ht
    obtain ⟨f, hf, hat⟩ := exists_getElem? hfuncs ht
    rw [Array.getElem?_toList] at hf
    refine ⟨f, by rw [Bindings.func, hf], ?_⟩
    rcases hat with ⟨-, r, rfl, hr, -⟩ | ⟨code, -, rfl⟩
    · exact Option.some.inj (hr.symm.trans htype)
    · rw [htype]
      rfl
  case body =>
    intro x type localCount e hx
    obtain ⟨t, -, hat⟩ := exists_getElem? (forall₂_flip hfuncs) (getElem?_of_func hx)
    rcases hat with ⟨-, r, hr, -, -⟩ | ⟨code, hzip, hcode⟩
    · cases hr
    · have hcodeRead := hread code (List.of_mem_zip hzip).2
      obtain ⟨type', htype', htyped⟩ := hpassed.codeHasType hzip hcodeRead.suited
      rw [htype', Option.getD_some] at hcode
      cases hcode
      exact ⟨code.localTypes, code.length_localTypes, htyped, hcodeRead.nesting⟩
  case imports =>
    intro x r hx
    obtain ⟨t, -, hat⟩ := exists_getElem? (forall₂_flip hfuncs) (getElem?_of_func hx)
    rcases hat with ⟨hsome, -⟩ | ⟨code, -, hcode⟩
    · exact hsome
    · cases hcode

/-- An exported function is there. -/
theorem exists_func_of_export (hpassed : Validation.Passed b.module)
    (hfuncs : List.Forall₂ (FuncAt s b.module) b.module.funcTypeIndices b.funcs.toList)
    {name : String} {x : UInt32} (hx : b.exportIndex .func name = .ok x) :
    ∃ g, b.func x = .ok g := by
  unfold Bindings.exportIndex at hx
  split at hx
  · next e he =>
    split at hx
    · next hkind =>
      cases hx
      have hlt := hpassed.exports (List.mem_of_find?_eq_some he)
      rw [hkind, Module.count, ← Module.length_importedFuncs] at hlt
      have hlength : b.module.funcTypeIndices.length = b.funcs.size := hfuncs.length_eq
      rw [Module.funcTypeIndices, List.length_append] at hlength
      rw [hlength] at hlt
      exact ⟨_, by rw [Bindings.func, Array.getElem?_eq_getElem hlt]⟩
    · cases hx
  · cases hx

/-- An imported function of the instance is genuine. -/
theorem genuine_of_imported
    (hfuncs : List.Forall₂ (FuncAt s m) m.funcTypeIndices b.funcs.toList) {x : Nat} {r : FuncRef}
    (hx : b.funcs[x]? = some (.imported r)) : r.Genuine s := by
  rw [← Array.getElem?_toList] at hx
  obtain ⟨t, -, hat⟩ := exists_getElem? (forall₂_flip hfuncs) hx
  rcases hat with ⟨-, r', hr, -, hgenuine⟩ | ⟨code, -, hcode⟩
  · cases hr
    exact hgenuine
  · cases hcode

end Wasm.Safety
