import Wasm.Proofs.Errors.Instantiation

/-!
# Accounts of the registry

What an embedder registers ends up in externals, from which instances take their imports.  Functions
of the host that build what they may are registered as such, and a registration that fails raises a
failure of its own, which agrees in category and code.
-/

namespace Wasm

variable {own : Error → Prop} {s : Store} {r : Registry}

/-! ### The registry -/

structure Registry.Builds (own : Error → Prop) (r : Registry) : Prop where
  natives : ∀ n ∈ r.natives, n.2.Builds own
  modules : ∀ p ∈ r.modules, p.2.Builds own

def MemberSource.Builds (own : Error → Prop) : MemberSource → Prop
  | .func _ run => ∀ args, (run args).Builds own
  | _ => True

def Registration.Builds (own : Error → Prop) : Registration → Prop
  | .function _ _ run => ∀ args, (run args).Builds own
  | .member _ _ source => source.Builds own
  | _ => True

/-- A result is accounted for: as a failure, or by a value that builds what it may. -/
def Supplies (own : Error → Prop) {α : Type} (P : α → Prop) (r : Except Error α) : Prop :=
  Accounts own r ∧ ∀ a, r = .ok a → P a

section Supplies

variable {α : Type} {P : α → Prop}

theorem supplies_ok {a : α} (h : P a) : Supplies own P (.ok a) := by
  refine ⟨accounts_ok a, fun a' ha' => ?_⟩
  cases ha'
  exact h

theorem supplies_error {e : Error} (h : e.Accounted own) : Supplies own P (.error e) :=
  ⟨accounts_error h, fun _ h => nomatch h⟩

theorem supplies_runtime {code : Nat} {message : String} (h : Category.ofCode code = .runtime) :
    Supplies own P (.error (.runtime code message)) :=
  supplies_error (Error.belongs_runtime h).accounted

end Supplies

theorem supplies_define {m : NativeModule} (hm : m.Builds own) (name : String) (member : Member)
    (hmember : member.Builds own) :
    Supplies own (·.Builds own) (m.define name member) := by
  unfold NativeModule.define
  split
  · exact supplies_runtime (by decide)
  · refine supplies_ok fun x hx => ?_
    rcases (mem_insertByName _ _ _).mp hx with rfl | hx
    · exact hmember
    · exact hm x hx

theorem supplies_register {m : NativeModule} (hm : m.Builds own) (signature : String)
    {run : List Value → Proc} (hrun : ∀ args, (run args).Builds own) :
    Supplies own (·.Builds own) (m.register signature run) := by
  unfold NativeModule.register
  cases hparse : Signature.parse signature with
  | error e =>
    obtain ⟨message, rfl⟩ := Signature.parse_error hparse
    exact supplies_runtime (by decide)
  | ok parsed => exact supplies_define hm parsed.1 (.func (.host parsed.2 run)) hrun

theorem supplies_change (hr : r.Builds own) (name : String)
    {f : NativeModule → Except Error NativeModule}
    (hf : ∀ m, m.Builds own → Supplies own (·.Builds own) (f m)) :
    Supplies own (·.Builds own) (r.change name f) := by
  have hfound : ((r.natives.lookup name).getD { name }).Builds own := by
    cases hlookup : r.natives.lookup name with
    | none => exact fun _ h => absurd h List.not_mem_nil
    | some m => exact hr.natives _ (mem_of_lookup hlookup)
  unfold Registry.change
  split
  · exact supplies_runtime (by decide)
  · split
    · next he => exact supplies_error ((hf _ hfound).1 he)
    · next m hm =>
      refine supplies_ok ⟨List.forall_mem_cons.mpr ⟨(hf _ hfound).2 m hm, fun n hn => ?_⟩,
        hr.modules⟩
      exact hr.natives n (List.mem_filter.mp hn).1

theorem supplies_add (hr : r.Builds own) (name : String) {p : Provider} (hp : p.Builds own) :
    Supplies own (·.Builds own) (r.add name p) := by
  unfold Registry.add
  split
  · exact supplies_runtime (by decide)
  · exact supplies_ok ⟨hr.natives, List.forall_mem_cons.mpr ⟨hp, hr.modules⟩⟩

theorem Externals.Builds.insert {e : Externals} (he : e.Builds own) (name : String) {p : Provider}
    (hp : p.Builds own) : Externals.Builds own (insertByName (name, p) e) := by
  intro q hq
  rcases (mem_insertByName _ _ _).mp hq with rfl | hq
  · exact hp
  · exact he q hq

theorem Registry.Builds.externals (hr : r.Builds own) : r.externals.Builds own := by
  have hall : Externals.Builds own
      (r.modules ++ r.natives.map fun n => (n.1, Provider.native n.2)) := by
    intro p hp
    rcases List.mem_append.mp hp with hp | hp
    · exact hr.modules p hp
    · obtain ⟨n, hn, rfl⟩ := List.mem_map.mp hp
      exact hr.natives n hn
  unfold Registry.externals
  generalize r.modules ++ _ = providers at hall
  induction providers with
  | nil => exact fun _ h => absurd h List.not_mem_nil
  | cons p rest ih =>
    obtain ⟨hp, hrest⟩ := List.forall_mem_cons.mp hall
    exact (ih hrest).insert p.1 hp

/-- The assertions of the command line's module fail with codes that they are given by. -/
theorem builds_env : Env.module.Builds own := by
  have hassert (lhs rhs : Value) : (Env.assertEq lhs rhs).Builds own := by
    unfold Env.assertEq
    split
    · exact accounts_ok _
    · exact accounts_error (.inl (Error.agrees_ofCode _ _))
  have hpair (args : List Value) : (Env.assertPair args).Builds own := by
    unfold Env.assertPair
    split
    · exact hassert _ _
    · exact accounts_error (.inl (Error.agrees_ofCode _ _))
  have hexpect (v : Value) (args : List Value) : (Env.expect v args).Builds own := by
    unfold Env.expect
    split
    · exact hassert _ _
    · exact accounts_error (.inl (Error.agrees_ofCode _ _))
  have hprint (args : List Value) : (Env.printChar args).Builds own := by
    unfold Env.printChar
    split
    · exact fun _ _ => accounts_ok _
    · exact accounts_ok _
  exact List.forall_mem_cons.mpr ⟨hpair, List.forall_mem_cons.mpr ⟨hpair,
    List.forall_mem_cons.mpr ⟨hpair, List.forall_mem_cons.mpr ⟨hpair,
    List.forall_mem_cons.mpr ⟨hexpect _, List.forall_mem_cons.mpr ⟨hexpect _,
    List.forall_mem_cons.mpr ⟨hprint, fun _ h => absurd h List.not_mem_nil⟩⟩⟩⟩⟩⟩⟩

/-! ### Registrations -/

theorem Store.Builds.addTable (hs : s.Builds own) (type : TableType) :
    (s.addTable (.allocate type)).2.Builds own :=
  ⟨Safety.slots_pushTable hs.slots fun hslot => absurd hslot (Safety.slots_allocate type),
    hs.bound⟩

theorem supplies_member (hs : s.Builds own) {source : MemberSource} (hsource : source.Builds own) :
    Supplies own (·.Builds own) (s.member source).1 ∧ (s.member source).2.Builds own := by
  cases source with
  | exported a name =>
    unfold Store.member
    dsimp only
    split
    · next hmember => exact ⟨supplies_ok (hs.provided? (p := .instance a) trivial hmember), hs⟩
    · exact ⟨supplies_runtime (by decide), hs⟩
  | memory limits maxPages =>
    unfold Store.member
    dsimp only
    split
    · next he =>
      obtain ⟨message, rfl⟩ := Memory.allocate_error he
      exact ⟨supplies_runtime (by decide), hs⟩
    · exact ⟨supplies_ok trivial, hs.congr (fun _ => rfl) rfl⟩
  | table limits => exact ⟨supplies_ok trivial, hs.addTable ⟨limits⟩⟩
  | func signature run =>
    unfold Store.member
    dsimp only
    cases hparse : Signature.parse signature with
    | error e =>
      obtain ⟨message, rfl⟩ := Signature.parse_error hparse
      exact ⟨supplies_runtime (by decide), hs⟩
    | ok parsed =>
      exact ⟨supplies_ok (show (FuncRef.host parsed.2 run).Builds own from hsource), hs⟩

theorem supplies_registration (hs : s.Builds own) (hr : r.Builds own) {item : Registration}
    (hitem : item.Builds own) :
    Supplies own (·.Builds own) (s.register r item).1 ∧ (s.register r item).2.Builds own := by
  cases item with
  | function module signature run =>
    exact ⟨supplies_change hr module fun m hm => supplies_register hm signature hitem, hs⟩
  | global module name value isMutable =>
    exact ⟨supplies_change hr module fun m hm => supplies_define hm name (.global _) trivial,
      hs.congr (fun _ => rfl) rfl⟩
  | member module name source =>
    obtain ⟨hmember, hs'⟩ := supplies_member hs hitem
    unfold Store.register
    dsimp only
    revert hmember hs'
    obtain ⟨found, s'⟩ := s.member source
    intro hmember hs'
    cases found with
    | error e => exact ⟨supplies_error (hmember.1 rfl), hs'⟩
    | ok member =>
      have hm := hmember.2 member rfl
      exact ⟨supplies_change hr module fun m h => supplies_define h name member hm, hs'⟩
  | «instance» module a => exact ⟨supplies_add hr module trivial, hs⟩
  | native module =>
    exact ⟨supplies_add hr module fun _ h => absurd h List.not_mem_nil, hs⟩

theorem supplies_registerAll (hs : s.Builds own) (hr : r.Builds own) {items : List Registration}
    (hitems : ∀ item ∈ items, item.Builds own) :
    Supplies own (·.Builds own) (s.registerAll r items).1 ∧
      (s.registerAll r items).2.Builds own := by
  induction items generalizing s r with
  | nil => exact ⟨supplies_ok hr, hs⟩
  | cons item rest ih =>
    obtain ⟨hitem, hrest⟩ := List.forall_mem_cons.mp hitems
    obtain ⟨hr', hs'⟩ := supplies_registration hs hr hitem
    unfold Store.registerAll
    revert hr' hs'
    obtain ⟨r', s'⟩ := s.register r item
    intro hr' hs'
    cases r' with
    | error e => exact ⟨supplies_error (hr'.1 rfl), hs'⟩
    | ok r' => exact ih hs' (hr'.2 r' rfl) hrest

end Wasm
