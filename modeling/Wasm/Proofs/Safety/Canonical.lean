import Wasm.Proofs.Safety.Quiescence

/-!
# Slots of reachable machines

Every slot of every thread has a static type: those that an activation has added to a thread have
the types by which it is in order, and an idle thread has none.  In whatever machine can be reached,
each slot is canonical for its type.
-/

namespace Wasm.Safety

/-- The static types of the slots of a thread, those at the bottom first. -/
inductive StaticTypes (m : Module) : Thread → List ValueType → Prop where
  | idle (config : Config) : StaticTypes m (.idle config) []
  | activation {e t : Thread} {final below types pending : List ValueType}
      {Γ? : Option Typing.Context} (hentry : StaticTypes m e below) (habove : Above e t)
      (hruns : Runs m e final Γ? t.frames.items (types ++ pending) t.localBase t.callDepth) :
      StaticTypes m t (below ++ types)

/-- Every slot of a thread is a canonical slot of its static type. -/
def AllCanonical (m : Module) (t : Thread) : Prop :=
  ∃ types, StaticTypes m t types ∧ OfTypes types t.operands.slots.items

variable {m : Module} {e t : Thread} {final pending : List ValueType}

theorem allCanonical_idle (m : Module) (config : Config) : AllCanonical m (.idle config) :=
  ⟨[], .idle config, ofTypes_nil⟩

theorem Steady.allCanonical (h : Steady m e final pending t) (he : AllCanonical m e) :
    AllCanonical m t := by
  obtain ⟨habove, Γ?, types, -, hruns, above, hslots, htypes⟩ := h
  obtain ⟨below, hentry, hbelow⟩ := he
  refine ⟨below ++ types, .activation hentry habove hruns, ?_⟩
  rw [hslots]
  exact hbelow.append htypes

theorem Regular.allCanonical {machine : Machine} {a : Address} {i : Instance}
    (h : Regular machine) (hi : machine.store.instance? a = some i) :
    AllCanonical i.bindings.module i.thread :=
  h.thread Steady.allCanonical allCanonical_idle hi

end Wasm.Safety
