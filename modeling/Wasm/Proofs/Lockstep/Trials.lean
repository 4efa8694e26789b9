import Wasm.Proofs.Lockstep.Instantiations

/-!
# Trials

A module is instantiated and functions of the instance are called one after another.  What there is
to be seen of that is a list of outcomes (`Store.trial`).  In stores in step, with a module and a
trimmed one and with limits of two heights, the outcomes are the same up to the first one at a limit
(`Store.InStep.trial`).
-/

namespace Wasm

/-- What there is to be seen of a call: what it returned, and the memories, tables and globals that
it left. -/
structure Outcome where
  result : Except Error (List Value)
  objects : Objects

/-- The call has ended at a limit. -/
def Outcome.AtLimit (x : Outcome) : Prop :=
  ∃ e, x.result = .error e ∧ e.Exhausted

/-- Calls of an instance, one after another, for as long as they come to their ends. -/
def Store.outcomes (fuel : Nat) (a : Address) (s : Store) : List Invocation → List Outcome
  | [] => []
  | p :: calls =>
    match p.run fuel s a with
    | none => []
    | some (r, t) => ⟨r, t.objects⟩ :: t.outcomes fuel a calls

/-- A module is instantiated, and then the instance is called. -/
def Store.trial (fuel : Nat) (s : Store) (externals : Externals) (m : Module) (config : Config)
    (calls : List Invocation) : List Outcome :=
  match s.instantiate fuel externals m config with
  | none => []
  | some (.error e, t) => [⟨.error e, t.objects⟩]
  | some (.ok a, t) => ⟨.ok [], t.objects⟩ :: t.outcomes fuel a calls

/-! ### Two trials -/

/-- The same outcomes, unless the first trial has come to a limit that the second one need not
meet. -/
inductive Outcome.Abreast (slack : Prop) : List Outcome → List Outcome → Prop
  | nil : Abreast slack [] []
  | cons (x : Outcome) {xs ys : List Outcome} (h : Abreast slack xs ys) :
      Abreast slack (x :: xs) (x :: ys)
  | limit (hslack : slack) {x : Outcome} (hx : x.AtLimit) (xs ys : List Outcome) :
      Abreast slack (x :: xs) ys

section

variable {slack : Prop} {xs ys : List Outcome} {k : Nat}

namespace Outcome.Abreast

/-- Where both trials meet the same limits. -/
theorem eq (h : Abreast False xs ys) : ys = xs := by
  induction h with
  | nil => rfl
  | cons x _ ih => rw [ih]
  | limit hslack => exact hslack.elim

/-- Up to the first limit nothing is different. -/
theorem getElem?_eq (h : Abreast slack xs ys)
    (hbelow : ∀ {j : Nat} {x : Outcome}, j ≤ k → xs[j]? = some x → ¬ x.AtLimit) :
    ys[k]? = xs[k]? := by
  induction h generalizing k with
  | nil => rfl
  | cons x _ ih =>
    cases k with
    | zero => rfl
    | succ k => exact ih fun {j x} hj hx => hbelow (Nat.succ_le_succ hj) hx
  | limit _ hx => exact absurd hx (hbelow (Nat.zero_le k) rfl)

end Outcome.Abreast

variable {s s' : Store} {m m' : Module} {config config' : Config} {a : Address}

namespace Store.InStep

/-- Calls of an instance in stores in step.  Where the first one may meet a limit on its own, the
instance calls nothing else. -/
theorem outcomes (h : s.InStep slack s') (halone : slack → s.Alone a) (fuel : Nat)
    (calls : List Invocation) :
    Outcome.Abreast slack (s.outcomes fuel a calls) (s'.outcomes fuel a calls) := by
  induction calls generalizing s s' with
  | nil => exact .nil
  | cons p calls ih =>
    have hrun := (p.abreast_begin a h).run
      (fun hslack m₁ hm₁ => ((p.alone_begin (halone hslack)).within hm₁).waiting) fuel
    rw [← p.run_eq_begin, ← p.run_eq_begin] at hrun
    unfold Store.outcomes
    cases hrun with
    | exhausted hslack he hx =>
      rw [hx]
      exact .limit hslack ⟨_, rfl, he⟩ _ _
    | same hsame =>
      cases hx : p.run fuel s a with
      | none =>
        rw [hx] at hsame
        generalize p.run fuel s' a = x' at hsame
        cases hsame
        exact .nil
      | some x =>
        obtain ⟨r, t⟩ := x
        rw [hx] at hsame
        obtain ⟨t', hx', ht⟩ := hsame.left
        rw [hx']
        dsimp only
        rw [ht.objects]
        exact .cons _ (ih ht fun hslack => p.alone_run (halone hslack) hx)

/-- A module and a trimmed one are instantiated in stores in step, and the instances are called. -/
theorem trial (h : s.InStep slack s') (fuel : Nat) (externals : Externals) (htrims : m.Trims m')
    (hconfig : config.InStep slack config') (hvalid : Validation.module m = .ok ())
    (hvalid' : Validation.module m' = .ok ())
    (halone : slack → (s.link externals m config).2.Alone s.instances.size)
    (calls : List Invocation) :
    Outcome.Abreast slack (s.trial fuel externals m config calls)
      (s'.trial fuel externals m' config' calls) := by
  have hend := h.instantiate fuel externals htrims hconfig hvalid hvalid' halone
  unfold Store.trial
  cases hx : s.instantiate fuel externals m config with
  | none =>
    rw [hx] at hend
    generalize s'.instantiate fuel externals m' config' = x' at hend
    cases hend
    exact .nil
  | some x =>
    obtain ⟨r, t⟩ := x
    rw [hx] at hend
    generalize s'.instantiate fuel externals m' config' = x' at hend
    cases hend with
    | exhausted hslack he => exact .limit hslack ⟨_, rfl, he⟩ _ _
    | some _ ht =>
      cases r with
      | error e =>
        dsimp only
        rw [ht.objects]
        exact .cons _ .nil
      | ok a =>
        dsimp only
        rw [ht.objects]
        exact .cons _ (ht.outcomes (fun hslack => (halone hslack).instantiate hx) fuel calls)

end Store.InStep

end

end Wasm
