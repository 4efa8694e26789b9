import Wasm.Proofs.Safety.Linking

/-!
# Setting up an instance

What happens between the imports and the start function, part by part.  A failure keeps what has
been written to tables; the references in it belong to an instance that is not there.  So a part
leads somewhere in both of its ends (`Leads`), and the store stays sound either way.
-/

namespace Wasm.Safety

open Instantiate (Setup)

/-! ### Parts of an instantiation -/

/-- Where a part of an instantiation leads: `Q` if it comes to its end, `R` if it fails. -/
def Leads {α : Type} (part : Setup α) (o : Objects) (R : Objects → Prop)
    (Q : α → Objects → Prop) : Prop :=
  match part o with
  | .ok a o' => Q a o'
  | .error _ o' => R o'

section Leads

variable {α β : Type} {o : Objects} {R : Objects → Prop} {part : Setup α}

theorem Leads.bind {f : α → Setup β} {P : α → Objects → Prop} {Q : β → Objects → Prop}
    (h : Leads part o R P) (hf : ∀ x o', P x o' → Leads (f x) o' R Q) :
    Leads (part >>= f) o R Q := by
  unfold Leads at h ⊢
  show match EStateM.bind part f o with
    | .ok a o' => Q a o'
    | .error _ o' => R o'
  unfold EStateM.bind
  cases hpart : part o with
  | ok x o' =>
    rw [hpart] at h
    exact hf x o' h
  | error e o' =>
    rw [hpart] at h
    exact h

theorem leads_get {f : Objects → Setup β} {Q : β → Objects → Prop} (h : Leads (f o) o R Q) :
    Leads (get >>= f) o R Q :=
  h

theorem leads_set {o' : Objects} {f : PUnit → Setup β} {Q : β → Objects → Prop}
    (h : Leads (f ⟨⟩) o' R Q) : Leads (set o' >>= f) o R Q :=
  h

theorem Leads.mono {P Q : α → Objects → Prop} (h : Leads part o R P)
    (hPQ : ∀ x o', P x o' → Q x o') : Leads part o R Q := by
  unfold Leads at h ⊢
  cases hpart : part o with
  | ok x o' =>
    rw [hpart] at h
    exact hPQ x o' h
  | error e o' =>
    rw [hpart] at h
    exact h

theorem leads_lift {r : Except Error α} {Q : α → Objects → Prop} (hR : R o)
    (h : ∀ {x}, r = .ok x → Q x o) : Leads (Instantiate.lift r) o R Q := by
  cases r with
  | ok x => exact h rfl
  | error e => exact hR

theorem leads_orTrap {r : Except Trap α} {Q : α → Objects → Prop} (hR : R o)
    (h : ∀ {x}, r = .ok x → Q x o) : Leads (Instantiate.orTrap r) o R Q := by
  cases r with
  | ok x => exact h rfl
  | error t => exact hR

theorem within_ok {x : α} {o' : Objects} (outer : String) (h : part o = .ok x o') :
    Instantiate.within outer part o = .ok x o' := by
  show EStateM.tryCatch part _ o = _
  delta EStateM.tryCatch
  dsimp only
  rw [h]

theorem within_error {e : Error} {o' : Objects} (outer : String) (h : part o = .error e o') :
    Instantiate.within outer part o = .error (e.context outer) o' := by
  show EStateM.tryCatch part _ o = _
  delta EStateM.tryCatch
  dsimp only
  rw [h]
  rfl

theorem Leads.within {Q : α → Objects → Prop} (h : Leads part o R Q) (outer : String) :
    Leads (Instantiate.within outer part) o R Q := by
  unfold Leads at h ⊢
  cases hpart : part o with
  | ok x o' =>
    rw [hpart] at h
    rw [within_ok outer hpart]
    exact h
  | error e o' =>
    rw [hpart] at h
    rw [within_error outer hpart]
    exact h

/-- A part for each item, each of which keeps what holds. -/
theorem leads_each {part : Nat → β → Setup Unit} {items : List β} {index : Nat}
    (hpart : ∀ index x, x ∈ items → ∀ o, R o → Leads (part index x) o R fun _ => R) (h : R o) :
    Leads (Instantiate.each part index items) o R fun _ => R := by
  induction items generalizing index o with
  | nil => exact h
  | cons x rest ih =>
    refine (hpart index x (List.mem_cons_self ..) o h).bind fun _ o' h' => ?_
    exact ih (fun index y hy => hpart index y (List.mem_cons_of_mem _ hy)) h'

end Leads

/-! ### Globals, memories and tables -/

/-- Objects that extend the first ones, with functions in tables that satisfy a condition. -/
structure Kept (o₀ : Objects) (G : FuncRef → Prop) (o : Objects) : Prop where
  grown : o₀.Extends o
  slots : o.Slots G

variable {s : Store} {m : Module} {b : Bindings} {o o₀ : Objects} {G : FuncRef → Prop}
  {types : List GlobalType}

theorem extends_pushGlobal (o : Objects) (c : Cell) :
    o.Extends { o with globals := o.globals.push c } := by
  refine ⟨Nat.le_refl _, Nat.le_refl _, fun {a c'} hc' => ⟨c', ?_, rfl⟩⟩
  have hlt : a < o.globals.size := (Array.getElem?_eq_some_iff.mp hc').1
  show (o.globals.push c)[a]? = some c'
  rw [Array.getElem?_push_lt hlt, ← hc', Array.getElem?_eq_getElem hlt]

theorem extends_pushMemory (o : Objects) (m : Memory) :
    o.Extends { o with memories := o.memories.push m } :=
  ⟨by simp, Nat.le_refl _, fun {_ c} hc => ⟨c, hc, rfl⟩⟩

theorem extends_pushTable (o : Objects) (t : Table) :
    o.Extends { o with tables := o.tables.push t } :=
  ⟨Nat.le_refl _, by simp, fun {_ c} hc => ⟨c, hc, rfl⟩⟩

/-- A new table in which every function satisfies the condition. -/
theorem slots_pushTable {t : Table} (h : o.Slots G)
    (ht : ∀ {i : Nat} {f : FuncRef}, t.slots[i]? = some (some f) → G f) :
    Objects.Slots G { o with tables := o.tables.push t } := by
  intro a table i f htable hslot
  rw [Array.getElem?_push] at htable
  split at htable
  · cases htable
    exact ht hslot
  · exact h htable hslot

theorem slots_allocate (type : TableType) {i : Nat} {f : FuncRef} :
    (Table.allocate type).slots[i]? ≠ some (some f) := by
  rw [Table.allocate, Array.getElem?_replicate]
  split
  · exact fun h => nomatch h
  · exact fun h => nomatch h

/-- A constant has the type that it was checked at. -/
theorem type_of_constant {expected : ValueType} {visible : Nat} {addresses : Array Address}
    {e : Expr} {v : Value} (htypes : types <+: m.globalTypes)
    (hglobals : List.Forall₂ (HasCell o) types addresses.toList)
    (hvalid : Validation.constant m expected visible e = .ok ())
    (hrun : Instantiate.constant o addresses e = .ok v) : v.type = expected := by
  unfold Instantiate.constant at hrun
  split at hrun
  · next t v' =>
    split at hrun
    · next htype =>
      cases hrun
      exact htype.trans (Validation.constant_const hvalid)
    · cases hrun
  · next x =>
    split at hrun
    · next c hc =>
      cases hrun
      obtain ⟨a, ha, hc⟩ := Option.bind_eq_some_iff.mp hc
      obtain ⟨type, htype, rfl⟩ := Validation.constant_globalGet hvalid
      rw [Module.globalType?_eq] at htype
      rw [← Array.getElem?_toList] at ha
      obtain ⟨type', htype', c', hc', hct⟩ := exists_getElem? (forall₂_flip hglobals) ha
      obtain ⟨more, hmore⟩ := htypes
      have hlt := (List.getElem?_eq_some_iff.mp htype').1
      rw [← hmore, List.getElem?_append_left hlt, htype'] at htype
      cases htype
      cases hc.symm.trans hc'
      rw [← hct]
      rfl
    · cases hrun
  · cases hrun

/-- The globals of the module, each with its initial value. -/
theorem leads_globals {gs : List Global} {index : Nat} {b : Bindings}
    (htypes : m.globalTypes = types ++ gs.map Global.type)
    (hglobals : List.Forall₂ (HasCell o) types b.globals.toList)
    (hvalid : ∀ {g}, g ∈ gs →
      ∃ visible, Validation.constant m g.type.valueType visible g.init = .ok ())
    (hkept : Kept o₀ G o) :
    Leads (Instantiate.globals b index gs) o (Kept o₀ G) fun b' o' =>
      Kept o₀ G o' ∧ o.Extends o' ∧ List.Forall₂ (HasCell o') m.globalTypes b'.globals.toList ∧
        ∃ addresses, b' = { b with globals := addresses } := by
  induction gs generalizing b o types index with
  | nil =>
    rw [List.map_nil, List.append_nil] at htypes
    rw [← htypes] at hglobals
    exact ⟨hkept, Objects.extends_refl o, hglobals, b.globals, rfl⟩
  | cons g rest ih =>
    rw [Instantiate.globals]
    refine leads_get ?_
    have hinit : Leads (Instantiate.within s!"global[{index}]"
        (Instantiate.lift (Instantiate.constant o b.globals g.init))) o (Kept o₀ G) fun v o' =>
          o' = o ∧ v.type = g.type.valueType := by
      refine (leads_lift hkept fun {v} hv => ⟨rfl, ?_⟩).within _
      obtain ⟨visible, hvisible⟩ := hvalid (List.mem_cons_self ..)
      exact type_of_constant ⟨_, htypes.symm⟩ hglobals hvisible hv
    refine hinit.bind fun v o' ⟨ho', hv⟩ => ?_
    subst ho'
    have hext := extends_pushGlobal o' ⟨g.type.isMutable, v⟩
    have hcell : HasCell { o' with globals := o'.globals.push ⟨g.type.isMutable, v⟩ } g.type
        o'.globals.size := by
      refine ⟨⟨g.type.isMutable, v⟩, by simp, ?_⟩
      rw [Cell.type, hv]
    have hglobals' : List.Forall₂
        (HasCell { o' with globals := o'.globals.push ⟨g.type.isMutable, v⟩ })
        (types ++ [g.type]) (b.globals.push o'.globals.size).toList := by
      rw [Array.toList_push]
      exact forall₂_concat (hglobals.imp fun _ _ h => h.extends hext) hcell
    have htypes' : m.globalTypes = (types ++ [g.type]) ++ rest.map Global.type := by
      rw [htypes, List.map_cons, List.append_assoc]
      rfl
    have hrest := @ih _ _ (index + 1) { b with globals := b.globals.push o'.globals.size } htypes'
      hglobals' (fun hg => hvalid (List.mem_cons_of_mem _ hg))
      ⟨hkept.grown.trans hext, hkept.slots⟩
    refine leads_set (hrest.mono ?_)
    rintro b' o'' ⟨hkept', hext', hglobals'', addresses, rfl⟩
    exact ⟨hkept', hext.trans hext', hglobals'', addresses, rfl⟩

/-- The memory of the module, if it defines one. -/
theorem leads_memory (hmemory : 0 < b.module.importCount .memory →
      ∃ a, b.memory = some a ∧ a < o.memories.size) (hkept : Kept o₀ G o) :
    Leads (Instantiate.memory b) o (Kept o₀ G) fun b' o' =>
      Kept o₀ G o' ∧ o.Extends o' ∧
        (0 < b.module.count .memory → ∃ a, b'.memory = some a ∧ a < o'.memories.size) ∧
        ∃ memory, b' = { b with memory := memory } := by
  unfold Instantiate.memory
  split
  · next hnone =>
    refine ⟨hkept, Objects.extends_refl o, fun hcount => hmemory ?_, b.memory, rfl⟩
    rw [Module.count, hnone] at hcount
    exact hcount
  · refine (leads_lift (Q := fun _ o' => o' = o) hkept fun _ => rfl).bind fun m o' ho' => ?_
    subst ho'
    have hext := extends_pushMemory o' m
    exact ⟨⟨hkept.grown.trans hext, hkept.slots⟩, hext, fun _ => ⟨_, rfl, by simp⟩, _, rfl⟩

/-- The table of the module, if it defines one. -/
theorem leads_table (htable : 0 < b.module.importCount .table →
      ∃ a, b.table = some a ∧ a < o.tables.size) (hkept : Kept o₀ G o) :
    Leads (Instantiate.table b) o (Kept o₀ G) fun b' o' =>
      Kept o₀ G o' ∧ o.Extends o' ∧
        (0 < b.module.count .table → ∃ a, b'.table = some a ∧ a < o'.tables.size) ∧
        ∃ table, b' = { b with table := table } := by
  unfold Instantiate.table
  split
  · next hnone =>
    refine ⟨hkept, Objects.extends_refl o, fun hcount => htable ?_, b.table, rfl⟩
    rw [Module.count, hnone] at hcount
    exact hcount
  · next type _ _ =>
    have hext := extends_pushTable o (.allocate type)
    refine ⟨⟨hkept.grown.trans hext, slots_pushTable hkept.slots fun hslot => ?_⟩, hext,
      fun _ => ⟨_, rfl, by simp⟩, _, rfl⟩
    exact absurd hslot (slots_allocate type)

/-! ### Segments -/

/-- A part that keeps what it starts from keeps what that extends. -/
theorem Leads.after {α : Type} {part : Setup α} (hgrown : o₀.Extends o)
    (h : Leads part o (Kept o G) fun _ => Kept o G) :
    Leads part o (Kept o₀ G) fun _ o' => Kept o₀ G o' ∧ o.Extends o' := by
  have hkept {o' : Objects} (h : Kept o G o') : Kept o₀ G o' := ⟨hgrown.trans h.grown, h.slots⟩
  unfold Leads at h ⊢
  cases hpart : part o with
  | ok x o' =>
    rw [hpart] at h
    exact ⟨hkept h, h.grown⟩
  | error e o' =>
    rw [hpart] at h
    exact hkept h

/-- The offset of a segment changes nothing. -/
theorem leads_offset (outer : String) (addresses : Array Address) (e : Expr)
    (hkept : Kept o₀ G o) :
    Leads (Instantiate.within outer do
      Instantiate.lift (Instantiate.offset (← get) addresses e)) o (Kept o₀ G) fun _ o' => o' = o :=
  (leads_get (leads_lift (Q := fun _ o' => o' = o) hkept fun _ => rfl)).within outer

theorem leads_dataSegment (index : Nat) (d : Data) (hkept : Kept o₀ G o) :
    Leads (Instantiate.dataSegment b index d) o (Kept o₀ G) fun _ => Kept o₀ G := by
  unfold Instantiate.dataSegment
  refine (leads_offset _ _ _ hkept).bind fun position o' ho' => ?_
  subst ho'
  refine (leads_orTrap (Q := fun _ o' => Kept o₀ G o') hkept fun _ => hkept).bind
    fun a o' hkept => leads_get ?_
  refine (leads_orTrap (Q := fun _ o' => Kept o₀ G o') hkept fun _ => hkept).bind
    fun m o' hkept => ?_
  split
  · have hlater := Objects.later_putBytes o' a position.toNat d.bytes
    exact ⟨hkept.grown.trans hlater.extends, hkept.slots⟩
  · exact (leads_orTrap hkept fun h => nomatch h).within _

theorem slots_put {t : Table} {offset i : Nat} {funcs : List FuncRef} {f : FuncRef}
    (h : (t.put offset funcs).slots[i]? = some (some f)) :
    t.slots[i]? = some (some f) ∨ f ∈ funcs := by
  induction funcs generalizing t offset with
  | nil => exact .inl h
  | cons g rest ih =>
    rcases ih h with hslot | hmem
    · rw [Array.getElem?_setIfInBounds] at hslot
      split at hslot
      · split at hslot
        · cases hslot
          exact .inr (List.mem_cons_self ..)
        · cases hslot
      · exact .inl hslot
    · exact .inr (List.mem_cons_of_mem _ hmem)

/-- Writing functions that satisfy the condition. -/
theorem kept_putSlots {a : Address} {offset : Nat} {funcs : List FuncRef} (h : Kept o₀ G o)
    (hfuncs : ∀ f ∈ funcs, G f) : Kept o₀ G (o.putSlots a offset funcs) := by
  refine ⟨h.grown.trans ⟨Nat.le_refl _, ?_, fun {_ c} hc => ⟨c, hc, rfl⟩⟩, ?_⟩
  · exact Nat.le_of_eq (Array.size_modify ..).symm
  · intro a' table i f htable hslot
    replace htable : (o.tables.modify a (·.put offset funcs))[a']? = some table := htable
    rw [Array.getElem?_modify] at htable
    split at htable
    · obtain ⟨t, ht, rfl⟩ := Option.map_eq_some_iff.mp htable
      rcases slots_put hslot with hslot' | hmem
      · exact h.slots ht hslot'
      · exact hfuncs f hmem
    · exact h.slots htable hslot

theorem mem_references {index : Nat} {indices : List UInt32} {funcs : List FuncRef}
    (h : Instantiate.references b index indices = .ok funcs) {f : FuncRef} (hf : f ∈ funcs) :
    ∃ x, b.funcRef? x = some f := by
  induction indices generalizing funcs with
  | nil =>
    cases h
    cases hf
  | cons x rest ih =>
    rw [Instantiate.references] at h
    split at h
    · cases h
    · next g hg =>
      split at h
      · next fs hfs =>
        cases h
        cases hf with
        | head => exact ⟨x, hg⟩
        | tail _ hf => exact ih hfs hf
      · cases h

theorem leads_elementSegment (index : Nat) (e : Element) (hkept : Kept o₀ G o)
    (hfuncs : ∀ {x f}, b.funcRef? x = some f → G f) :
    Leads (Instantiate.elementSegment b index e) o (Kept o₀ G) fun _ => Kept o₀ G := by
  unfold Instantiate.elementSegment
  refine (leads_offset _ _ _ hkept).bind fun position o' ho' => ?_
  subst ho'
  refine (leads_orTrap (Q := fun _ o' => Kept o₀ G o') hkept fun _ => hkept).bind
    fun a o' hkept => leads_get ?_
  refine (leads_orTrap (Q := fun _ o' => Kept o₀ G o') hkept fun _ => hkept).bind
    fun t o' hkept => ?_
  split
  · refine (leads_lift (Q := fun funcs o' => Kept o₀ G o' ∧ ∀ f ∈ funcs, G f) hkept
      fun {funcs} hrun => ⟨hkept, fun f hf => ?_⟩).bind fun funcs o' h => kept_putSlots h.1 h.2
    obtain ⟨x, hx⟩ := mem_references hrun hf
    exact hfuncs hx
  · exact leads_orTrap hkept fun h => nomatch h

/-! ### The whole -/

/-- A reference that is genuine, or that belongs to the next instance, which has these functions. -/
def Promised (s : Store) (funcs : Array Func) (f : FuncRef) : Prop :=
  f.Genuine s ∨ ∃ (type : FuncType) (index : UInt32) (g : Func),
    f = .owned type s.instances.size index ∧ funcs[index.toNat]? = some g ∧ g.type = type

theorem promised_funcRef? {f : FuncRef} {x : UInt32}
    (hfuncs : List.Forall₂ (FuncAt s m) m.funcTypeIndices b.funcs.toList)
    (hself : b.self = s.instances.size) (hf : b.funcRef? x = some f) :
    Promised s b.funcs f := by
  obtain ⟨g, hg, rfl⟩ := Option.map_eq_some_iff.mp hf
  cases g with
  | defined type localCount body =>
    exact .inr ⟨type, x, _, by rw [hself], hg, rfl⟩
  | imported r => exact .inl (genuine_of_imported hfuncs hg)

/-- Where the parts between the imports and the start function lead to. -/
structure Ready (s : Store) (b b' : Bindings) (o : Objects) : Prop where
  self : b'.self = b.self
  module : b'.module = b.module
  config : b'.config = b.config
  funcs : b'.funcs = (Instantiate.functions b).funcs
  linked : Linked b' o
  kept : Kept s.objects (Promised s (Instantiate.functions b).funcs) o

/-- Everything between the imports and the start function. -/
theorem leads_setup (hsound : Sound s) (hpassed : Validation.Passed b.module)
    (himported : Imported s b.module.imports b) (hself : b.self = s.instances.size) :
    Leads (Instantiate.setup b) s.objects
      (Kept s.objects (Promised s (Instantiate.functions b).funcs)) fun b' o =>
        Ready s b b' o := by
  have hfuncs := forall₂_functions himported hpassed.count
  have hstart : Kept s.objects (Promised s (Instantiate.functions b).funcs) s.objects :=
    ⟨Objects.extends_refl _, fun htable hslot => .inl (hsound.slots htable hslot)⟩
  unfold Instantiate.setup
  refine (leads_globals (m := b.module) rfl himported.globals hpassed.globals hstart).bind
    fun b₁ o₁ ⟨hkept₁, hext₁, hglobals, addresses, hb₁⟩ => ?_
  subst hb₁
  refine (leads_memory (fun hcount => ?_) hkept₁).bind
    fun b₂ o₂ ⟨hkept₂, hext₂, hmemory, memory, hb₂⟩ => ?_
  · obtain ⟨a, ha, hlt⟩ := himported.memory hcount
    exact ⟨a, ha, Nat.lt_of_lt_of_le hlt hext₁.memories⟩
  subst hb₂
  refine (Leads.after hkept₂.grown (leads_each (fun index d _ o ho => leads_dataSegment index d ho)
    ⟨Objects.extends_refl o₂, hkept₂.slots⟩)).bind fun _ o₃ ⟨hkept₃, hext₃⟩ => ?_
  refine (leads_table (fun hcount => ?_) hkept₃).bind
    fun b₄ o₄ ⟨hkept₄, hext₄, htable, table, hb₄⟩ => ?_
  · obtain ⟨a, ha, hlt⟩ := himported.table hcount
    exact ⟨a, ha, Nat.lt_of_lt_of_le hlt ((hext₁.trans hext₂).trans hext₃).tables⟩
  subst hb₄
  refine Leads.bind (Leads.after hkept₄.grown (leads_each (fun index e _ o ho =>
    leads_elementSegment index e ho fun hf => promised_funcRef? hfuncs hself hf)
    ⟨Objects.extends_refl o₄, hkept₄.slots⟩)) fun _ o₅ ⟨hkept₅, hext₅⟩ => ?_
  have hext := (hext₂.trans hext₃).trans (hext₄.trans hext₅)
  refine ⟨rfl, rfl, rfl, rfl, ⟨fun {x type} htype => ?_, fun hcount => ?_, fun hcount => ?_⟩,
    hkept₅⟩
  · rw [Module.globalType?_eq] at htype
    obtain ⟨a, ha, c, hc, hct⟩ := exists_getElem? hglobals htype
    obtain ⟨c', hc', hct'⟩ := hext.globals hc
    exact ⟨a, c', by rw [← Array.getElem?_toList]; exact ha, hc', hct'.trans hct⟩
  · obtain ⟨a, ha, hlt⟩ := hmemory hcount
    exact ⟨a, ha, Nat.lt_of_lt_of_le hlt (hext₃.trans (hext₄.trans hext₅)).memories⟩
  · obtain ⟨a, ha, hlt⟩ := htable hcount
    exact ⟨a, ha, Nat.lt_of_lt_of_le hlt hext₅.tables⟩

/-! ### The next address -/

variable {x : Option Instance} {handles : List (String × Address)} {events : List Event}

theorem bindings?_push (a : Address) :
    Store.bindings? ⟨o, s.instances.push x, handles, events⟩ a =
      if a = s.instances.size then x.map (·.bindings) else s.bindings? a := by
  show (((s.instances.push x)[a]?).join).map _ = _
  rw [Array.getElem?_push]
  split
  · rfl
  · rfl

theorem keeps_push : s.Keeps ⟨o, s.instances.push x, handles, events⟩ := by
  refine ⟨by simp, fun {a b} hlt hb => ?_⟩
  rw [bindings?_push, if_neg (Nat.ne_of_lt hlt)] at hb
  exact hb

/-- At the next address there is an instance that is bound, or none. -/
theorem sound_push {funcs : Array Func} (hsound : Sound s)
    (hkept : Kept s.objects (Promised s funcs) o)
    (hx : ∀ {b}, x.map (·.bindings) = some b → b.funcs = funcs ∧
      Bound ⟨o, s.instances.push x, handles, events⟩ s.instances.size b) :
    Sound ⟨o, s.instances.push x, handles, events⟩ := by
  refine hsound.extends keeps_push hkept.grown (fun {a b} hb => ?_) fun htable hslot => ?_
  · rw [bindings?_push] at hb
    split at hb
    · next ha =>
      rw [ha]
      exact .inr (hx hb).2
    · exact .inl hb
  · rcases hkept.slots htable hslot with hgenuine | ⟨type, index, g, rfl, hg, htype⟩
    · exact hgenuine.keeps keeps_push
    · refine ⟨by simp, fun {b} hb => ⟨g, ?_, htype⟩⟩
      rw [bindings?_push, if_pos rfl] at hb
      rw [← (hx hb).1] at hg
      rw [Bindings.func, hg]

/-- The store with a new instance that is ready. -/
theorem sound_of_ready {b' : Bindings} {thread : Thread} {busy : Bool} (hsound : Sound s)
    (hread : Binary.CodesRead b.module) (hpassed : Validation.Passed b.module)
    (himported : Imported s b.module.imports b) (hself : b.self = s.instances.size)
    (hready : Ready s b b' o) :
    Sound ⟨o, s.instances.push (some ⟨b', thread, busy⟩), handles, events⟩ := by
  have hfuncs := forall₂_functions himported hpassed.count
  obtain ⟨hself', hmodule, -, hfuncs', hlinked, hkept⟩ := hready
  rw [← hfuncs', ← hmodule] at hfuncs
  rw [← hmodule] at hread hpassed
  refine sound_push hsound hkept fun {b''} hb'' => ?_
  obtain rfl := Option.some.inj hb''
  refine ⟨hfuncs', hself'.trans hself, wired_of_functions hread hpassed hfuncs, hlinked,
    fun {x f} hx => ?_, fun hexport => exists_func_of_export hpassed hfuncs hexport⟩
  unfold Bindings.func at hx
  split at hx
  · next f' hf' =>
    cases hx
    exact (genuine_of_imported hfuncs hf').keeps keeps_push
  · cases hx

/-- The store after a failure, in which the next address is lost. -/
theorem sound_of_failure {funcs : Array Func} (hsound : Sound s)
    (hkept : Kept s.objects (Promised s funcs) o) :
    Sound ⟨o, s.instances.push none, handles, events⟩ :=
  sound_push hsound hkept fun h => nomatch h

end Wasm.Safety
