import Wasm.Proofs.Errors.Machines
import Wasm.Proofs.Errors.Validation
import Wasm.Proofs.Instantiation.Success
import Wasm.Proofs.Safety.Soundness

/-!
# Accounts of instantiations

Every part of an instantiation fails with a category and a code that agree, and what it binds and
writes to tables are functions that its imports provide, or its own.
-/

namespace Wasm

variable {own : Error → Prop} {s s' : Store} {b b' : Bindings} {o o' : Objects}

/-! ### Failures of instantiations -/

namespace Instantiate

variable {α : Type} {r : Except Error α}

theorem consistent_lift (h : ∀ e, r = .error e → e.Agrees) : Consistent (lift r) := by
  cases r with
  | ok a => exact consistent_pure a
  | error e => exact consistent_throw (h e rfl)

theorem consistent_orTrap (r : Except Trap α) : Consistent (orTrap r) := by
  cases r with
  | ok a => exact consistent_pure a
  | error t => exact consistent_throw (Error.belongs_trap t).agrees

theorem consistent_within {part : Setup α} (h : Consistent part) (outer : String) :
    Consistent (within outer part) :=
  h.rethrown fun _ he => he.context outer

theorem consistent_each {part : Nat → α → Setup Unit} (h : ∀ index a, Consistent (part index a))
    (index : Nat) (l : List α) : Consistent (each part index l) := by
  induction l generalizing index with
  | nil => exact consistent_pure _
  | cons a rest ih => exact (h index a).bind fun _ => ih _

theorem agrees_of_constant {globals : Array Address} {init : Expr} {e : Error}
    (h : constant o globals init = .error e) : e.Agrees := by
  unfold constant at h
  split at h
  · split at h
    · cases h
    · cases h
      rfl
  · split at h
    · cases h
    · cases h
      exact (Error.belongs_trap _).agrees
  · cases h
    rfl

theorem agrees_of_offset {globals : Array Address} {init : Expr} {e : Error}
    (h : offset o globals init = .error e) : e.Agrees := by
  unfold offset at h
  split at h
  · cases h
  · cases h
    exact (Error.belongs_validation (by decide)).agrees
  · next hconstant =>
    cases h
    exact agrees_of_constant hconstant

theorem agrees_of_references {index : Nat} {indices : List UInt32} {e : Error}
    (h : references b index indices = .error e) : e.Agrees := by
  induction indices with
  | nil => cases h
  | cons i rest ih =>
    unfold references at h
    split at h
    · cases h
      exact (Error.belongs_trap _).agrees.context _
    · split at h
      · cases h
      · next hrest =>
        cases h
        exact ih hrest

theorem consistent_globals (b : Bindings) (index : Nat) (gs : List Global) :
    Consistent (globals b index gs) := by
  induction gs generalizing b index with
  | nil => exact consistent_pure _
  | cons g rest ih =>
    exact consistent_get.bind fun _ =>
      (consistent_within (consistent_lift fun _ => agrees_of_constant) _).bind fun _ =>
        (consistent_set _).bind fun _ => ih _ _

theorem consistent_memory (b : Bindings) : Consistent (memory b) := by
  unfold memory
  split
  · exact consistent_pure _
  · refine (consistent_lift fun e h => ?_).bind fun _ => consistent_modifyGet _
    obtain ⟨message, rfl⟩ := Memory.allocate_error h
    exact (Error.belongs_runtime (by decide)).agrees

theorem consistent_table (b : Bindings) : Consistent (table b) := by
  unfold table
  split
  · exact consistent_pure _
  · exact consistent_modifyGet _

theorem consistent_position (outer : String) (globals : Array Address) (init : Expr) :
    Consistent (within outer do lift (offset (← get) globals init)) :=
  consistent_within (consistent_get.bind fun _ => consistent_lift fun _ => agrees_of_offset) _

theorem consistent_dataSegment (b : Bindings) (index : Nat) (d : Data) :
    Consistent (dataSegment b index d) := by
  refine (consistent_position _ _ _).bind fun _ => (consistent_orTrap _).bind fun _ =>
    consistent_get.bind fun _ => (consistent_orTrap _).bind fun _ => ?_
  split
  · exact consistent_modifyGet _
  · exact consistent_within (consistent_orTrap _) _

theorem consistent_elementSegment (b : Bindings) (index : Nat) (e : Element) :
    Consistent (elementSegment b index e) := by
  refine (consistent_position _ _ _).bind fun _ => (consistent_orTrap _).bind fun _ =>
    consistent_get.bind fun _ => (consistent_orTrap _).bind fun _ => ?_
  split
  · exact (consistent_lift fun _ => agrees_of_references).bind fun _ => consistent_modifyGet _
  · exact consistent_orTrap _

theorem consistent_setup (b : Bindings) : Consistent (setup b) :=
  (consistent_globals b 0 _).bind fun _ => (consistent_memory _).bind fun _ =>
    (consistent_each (consistent_dataSegment _) 0 _).bind fun _ => (consistent_table _).bind fun _ =>
      (consistent_each (consistent_elementSegment _) 0 _).bind fun _ => consistent_pure _

/-- An import that cannot be resolved is a failure to link. -/
theorem belongs_of_resolve {externals : Externals} {types : List FuncType} {imp : Import}
    {e : Error} (h : resolve s externals types imp = .error e) : e.Belongs .link := by
  unfold resolve at h
  split at h
  · cases h
    exact Error.belongs_link (by decide)
  · split at h
    · cases h
      exact Error.belongs_link (by decide)
    · split at h
      · cases h
      · cases h
        exact Error.belongs_link (by decide)

theorem belongs_of_imports {externals : Externals} {imps : List Import} {e : Error}
    (h : imports s externals b imps = .error e) : e.Belongs .link := by
  induction imps generalizing b with
  | nil => cases h
  | cons imp rest ih =>
    unfold imports at h
    split at h
    · next hresolve =>
      cases h
      exact belongs_of_resolve hresolve
    · exact ih h

end Instantiate

/-! ### What an instantiation binds and writes -/

def Externals.Builds (own : Error → Prop) (x : Externals) : Prop :=
  ∀ p ∈ x, p.2.Builds own

theorem Store.Builds.provided? (h : s.Builds own) {p : Provider} (hp : p.Builds own)
    {name : String} {member : Member} (hmember : s.provided? p name = some member) :
    member.Builds own := by
  cases p with
  | native m => exact NativeModule.Builds.member hp hmember
  | «instance» a =>
    obtain ⟨b, hb, hmember⟩ := Option.bind_eq_some_iff.mp hmember
    exact (h.bound (Safety.bindings?_of_idle? hb)).member? hmember

theorem Bindings.Builds.bind (h : b.Builds own) {member : Member} (hmember : member.Builds own) :
    (Instantiate.bind b member).Builds own := by
  cases member with
  | func f =>
    intro g hg
    rcases Array.mem_push.mp hg with hg | hg
    · exact h hg
    · cases hg
      exact hmember
  | _ => exact h

theorem builds_imports {externals : Externals} {imps : List Import} (hs : s.Builds own)
    (hexternals : externals.Builds own) (hb : b.Builds own)
    (h : Instantiate.imports s externals b imps = .ok b') : b'.Builds own := by
  induction imps generalizing b with
  | nil =>
    cases h
    exact hb
  | cons imp rest ih =>
    unfold Instantiate.imports at h
    split at h
    · cases h
    · next member hresolve =>
      refine ih (hb.bind ?_) h
      unfold Instantiate.resolve at hresolve
      split at hresolve
      · cases hresolve
      · next hprovider =>
        split at hresolve
        · cases hresolve
        · next hmember =>
          split at hresolve
          · cases hresolve
            exact hs.provided? (hexternals _ (mem_of_lookup hprovider)) hmember
          · cases hresolve

section Setup

open Safety (Kept Leads leads_get leads_set leads_lift leads_each)

variable {G : FuncRef → Prop} {o₀ : Objects}

theorem kept_globals {gs : List Global} {index : Nat} (h : Kept o₀ G o) :
    Leads (Instantiate.globals b index gs) o (Kept o₀ G) fun b' o' =>
      Kept o₀ G o' ∧ b'.funcs = b.funcs := by
  induction gs generalizing b o index with
  | nil => exact ⟨h, rfl⟩
  | cons g rest ih =>
    rw [Instantiate.globals]
    have hinit : Leads (Instantiate.within s!"global[{index}]"
        (Instantiate.lift (Instantiate.constant o b.globals g.init))) o (Kept o₀ G)
        fun _ o' => o' = o :=
      (leads_lift (Q := fun _ o' => o' = o) h fun _ => rfl).within _
    refine leads_get (hinit.bind fun v o' ho' => leads_set ?_)
    subst ho'
    exact ih ⟨h.grown.trans (Safety.extends_pushGlobal ..), h.slots⟩

theorem kept_memory (h : Kept o₀ G o) :
    Leads (Instantiate.memory b) o (Kept o₀ G) fun b' o' =>
      Kept o₀ G o' ∧ b'.funcs = b.funcs := by
  unfold Instantiate.memory
  split
  · exact ⟨h, rfl⟩
  · refine (leads_lift (Q := fun _ => Kept o₀ G) h fun _ => h).bind fun m o' h => ⟨?_, rfl⟩
    exact ⟨h.grown.trans (Safety.extends_pushMemory ..), h.slots⟩

theorem kept_table (h : Kept o₀ G o) :
    Leads (Instantiate.table b) o (Kept o₀ G) fun b' o' =>
      Kept o₀ G o' ∧ b'.funcs = b.funcs := by
  unfold Instantiate.table
  split
  · exact ⟨h, rfl⟩
  · exact ⟨⟨h.grown.trans (Safety.extends_pushTable ..), Safety.slots_pushTable h.slots
      fun hslot => absurd hslot (Safety.slots_allocate _)⟩, rfl⟩

/-- The functions of the module itself are no imports. -/
theorem Bindings.Builds.functions (h : b.Builds own) : (Instantiate.functions b).Builds own := by
  intro g hg
  rcases Array.mem_append.mp hg with hg | hg
  · exact h hg
  · obtain ⟨x, -, hx⟩ := List.mem_map.mp (List.mem_toArray.mp hg)
    cases hx

theorem builds_setup (hb : b.Builds own) (h : o.Slots (·.Builds own)) :
    Leads (Instantiate.setup b) o (Kept o (·.Builds own)) fun b' o' =>
      Kept o (·.Builds own) o' ∧ b'.Builds own := by
  have hfuncs {b₁ b₂ : Bindings} (h : b₁.Builds own) (heq : b₂.funcs = b₁.funcs) :
      b₂.Builds own := by
    intro g hg
    rw [heq] at hg
    exact h hg
  unfold Instantiate.setup
  refine (kept_globals ⟨Objects.extends_refl o, h⟩).bind fun b₁ o₁ ⟨h₁, hb₁⟩ => ?_
  refine (kept_memory h₁).bind fun b₂ o₂ ⟨h₂, hb₂⟩ => ?_
  refine (leads_each (fun index d _ _ h => Safety.leads_dataSegment index d h) h₂).bind
    fun _ o₃ h₃ => ?_
  have hb₃ := (hfuncs (hfuncs hb hb₁) hb₂).functions
  refine (kept_table h₃).bind fun b₄ o₄ ⟨h₄, hb₄⟩ => ?_
  have hbuilds := hfuncs hb₃ hb₄
  exact Leads.bind (leads_each (fun index e _ _ h =>
    Safety.leads_elementSegment index e h hbuilds.funcRef?) h₄) fun _ o₅ h₅ => ⟨h₅, hbuilds⟩

end Setup

/-! ### Whole instantiations -/

theorem Store.Builds.push (hs : s.Builds own) {o : Objects} (ho : o.Slots (·.Builds own))
    {i : Option Instance} (hi : ∀ x, i = some x → x.bindings.Builds own) :
    Store.Builds own ⟨o, s.instances.push i, s.handles, s.events⟩ := by
  refine ⟨ho, fun {a b} hb => ?_⟩
  rw [Safety.bindings?_push] at hb
  split at hb
  · obtain ⟨x, hx, rfl⟩ := Option.map_eq_some_iff.mp hb
    exact hi x hx
  · exact hs.bound hb

theorem builds_link {externals : Externals} (m : Module) (config : Config) (hs : s.Builds own)
    (hexternals : externals.Builds own) :
    Accounts own (s.link externals m config).1 ∧ (s.link externals m config).2.Builds own := by
  unfold Store.link
  cases hvalid : Validation.module m with
  | error e => exact ⟨accounts_error (Validation.invalidates_module m hvalid).accounted, hs⟩
  | ok _ =>
    dsimp only
    cases himports : Instantiate.imports s externals
        ⟨s.instances.size, m, config, #[], #[], none, none⟩ m.imports with
    | error e =>
      exact ⟨accounts_error (Instantiate.belongs_of_imports himports).accounted, hs⟩
    | ok b =>
      have hb : b.Builds own := builds_imports hs hexternals (fun g hg => by simp at hg) himports
      have hsetup := builds_setup hb hs.slots
      unfold Safety.Leads at hsetup
      dsimp only
      cases hrun : Instantiate.setup b s.objects with
      | error e o =>
        rw [hrun] at hsetup
        exact ⟨accounts_error (.inl (Instantiate.consistent_setup b _ _ _ hrun)),
          hs.push hsetup.slots fun _ h => nomatch h⟩
      | ok b' o =>
        rw [hrun] at hsetup
        refine ⟨accounts_ok _, hs.push hsetup.1.slots fun x hx => ?_⟩
        cases hx
        exact hsetup.2

theorem builds_start {fuel : Nat} {a : Address} {index : Option UInt32} {r : Except Error Unit}
    (hs : s.Builds own) (h : s.start fuel a index = some (r, s')) :
    Accounts own r ∧ s'.Builds own := by
  unfold Store.start at h
  split at h
  · cases h
    exact ⟨accounts_ok _, hs⟩
  · obtain ⟨⟨r', s''⟩, hrun, heq⟩ := Option.map_eq_some_iff.mp h
    obtain ⟨hr', hs''⟩ :=
      (builds_invokeIndex a true _ [] hs fun _ h => absurd h List.not_mem_nil).run hrun
    cases r' with
    | ok values =>
      cases heq
      exact ⟨accounts_ok _, hs''⟩
    | error e =>
      cases heq
      exact ⟨accounts_error ((hr' rfl).context _), hs''⟩

/-- An instance that is given up takes its functions with it. -/
theorem Store.Builds.forget (hs : s.Builds own) (kept : Address → Bool) : Store.Builds own
    { s with instances := s.instances.mapIdx fun a i => if kept a then i else none } :=
  ⟨hs.slots, fun hb => hs.bound (Safety.bindings?_forget hb)⟩

theorem builds_instantiate {fuel : Nat} {externals : Externals} {m : Module} {config : Config}
    {r : Except Error Address} (hs : s.Builds own) (hexternals : externals.Builds own)
    (h : s.instantiate fuel externals m config = some (r, s')) :
    Accounts own r ∧ s'.Builds own := by
  rw [Store.instantiate_eq] at h
  have hlink := builds_link m config hs hexternals
  revert h hlink
  obtain ⟨linked, s₁⟩ := s.link externals m config
  rintro h ⟨hr, hs₁⟩
  cases linked with
  | error e =>
    cases h
    exact ⟨accounts_error (hr rfl), hs₁⟩
  | ok a =>
    obtain ⟨⟨started, s₂⟩, hstart, heq⟩ := Option.map_eq_some_iff.mp h
    obtain ⟨hr₂, hs₂⟩ := builds_start hs₁ hstart
    cases started with
    | ok _ =>
      cases heq
      exact ⟨accounts_ok _, hs₂⟩
    | error e =>
      cases heq
      refine ⟨accounts_error (hr₂ rfl), ?_⟩
      rw [← Safety.forget_eq_setInstance]
      exact hs₂.forget _

end Wasm
