import Wasm.Proofs.Instantiation.IndexSpaces

/-!
# The functions of an instance

An instance has a function for each function that its module imports, and then those that its module
defines.  So much is known of every instance in every machine that can be reached
(`assembled_of_reachable`).
-/

namespace Wasm

/-- The functions that a module defines, as its instances have them. -/
def Module.definedFuncs (m : Module) : List Func :=
  (m.functions.zip m.codes).map fun (t, code) =>
    .defined ((m.types[t.toNat]?).getD {}) code.localCount code.body

/-- As many imported functions as the module says, and then what it defines. -/
def Bindings.Assembled (b : Bindings) : Prop :=
  ∃ imported : List FuncRef, imported.length = b.module.importCount .func ∧
    b.funcs.toList = imported.map Func.imported ++ b.module.definedFuncs

/-- An instance of a module without function imports has none. -/
theorem Bindings.Assembled.func_ne {b : Bindings} (h : b.Assembled)
    (hcount : b.module.importCount .func = 0) {k : UInt32} {g : FuncRef} :
    b.func k ≠ .ok (.imported g) := by
  obtain ⟨imported, hlength, hfuncs⟩ := h
  intro hfunc
  unfold Bindings.func at hfunc
  split at hfunc
  · next f hf =>
    cases hfunc
    have hmem : Func.imported g ∈ b.funcs.toList :=
      Array.mem_toList_iff.mpr (Array.mem_of_getElem? hf)
    rw [hfuncs, List.eq_nil_of_length_eq_zero (hlength.trans hcount), List.map_nil, List.nil_append]
      at hmem
    obtain ⟨⟨t, code⟩, -, heq⟩ := List.mem_map.mp hmem
    cases heq
  · cases hfunc

namespace Instantiation

open Safety (Acts Calls Reachable)

namespace Linkage

variable {l : Linkage}

theorem assembled_ready (hresolved : l.Resolved) (addresses : Array Address) :
    (l.ready addresses).Assembled := by
  have hmodule : (l.ready addresses).module = l.module := by
    show l.bound.module = _
    rw [bound_eq]
  refine ⟨l.members.filterMap Member.func?, ?_, ?_⟩
  · rw [hmodule, ← hresolved.forall₂_importedFuncs.length_eq, Module.length_importedFuncs]
  · rw [hmodule]
    show (Instantiate.functions l.bound).funcs.toList = _
    rw [bound_eq, Instantiate.functions, Array.toList_append]
    rfl

/-- What has been linked is assembled. -/
theorem assembled_link (hread : Binary.ConstantsRead l.module)
    (hvalid : Validation.module l.module = .ok ()) {a : Address} {b : Bindings}
    (hb : l.link.2.bindings? a = some b) : l.store.bindings? a = some b ∨ b.Assembled := by
  have hchecked := checked_of_module hread hvalid
  by_cases hresolved : l.Resolved
  · rw [link_of_resolved hvalid hresolved] at hb
    by_cases haffordable : l.Affordable
    · obtain ⟨cells, new, addresses, -, -, ⟨-, hrun⟩ | ⟨before, seg, after, -, -, -, e, hrun, -⟩⟩ :=
        setup_affordable hresolved hchecked haffordable
      · rw [hrun, Safety.bindings?_push] at hb
        split at hb
        · obtain rfl := Option.some.inj hb
          exact .inr (assembled_ready hresolved addresses)
        · exact .inl hb
      · rw [hrun, Safety.bindings?_push] at hb
        split at hb
        · cases hb
        · exact .inl hb
    · obtain ⟨e, new, hrun, -⟩ := setup_unaffordable hresolved hchecked haffordable
      rw [hrun, Safety.bindings?_push] at hb
      split at hb
      · cases hb
      · exact .inl hb
  · obtain ⟨e, hlink, -⟩ := link_of_unresolved hvalid hresolved
    rw [hlink] at hb
    exact .inl hb

end Linkage

/-- In every machine that can be reached, every instance is assembled. -/
theorem assembled_of_reachable {known : List FuncRef} {m : Machine} (h : Reachable known m)
    {a : Address} {b : Bindings} (hb : m.store.bindings? a = some b) : b.Assembled := by
  induction h with
  | start =>
    obtain ⟨i, hi, -⟩ := Safety.exists_instance hb
    cases Safety.lt_size hi
  | act _ hacts ih =>
    rcases acts_cases hacts with ⟨hinstances, -⟩ | ⟨kept, rfl⟩ | ⟨l, rfl, hread, hvalid, rfl⟩
    · exact ih (((Store.stays_of_instances hinstances).bindings a).symm.trans hb)
    · exact ih (Safety.bindings?_forget hb)
    · exact (Linkage.assembled_link hread hvalid hb).elim ih id
  | call _ hcalls ih => exact ih (((Safety.moves_of_calls hcalls).stays.bindings a).symm.trans hb)
  | step _ ih => exact ih (((Safety.moves_step _).stays.bindings a).symm.trans hb)

end Instantiation

end Wasm
