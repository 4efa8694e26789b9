import Mathlib.Logic.Function.Iterate
import Wasm.Proofs.Safety.Soundness

/-!
# Calls until they return

A machine takes its steps in one way only, so a call that returns does so once, with one result
(`Ends.unique`).  `Ends` is about a call above anything that waits; with nothing below it is what
running the machine gives (`ends_iff_run`).
-/

namespace Wasm

/-- The call above `waiting` has not returned yet. -/
def Machine.Open (waiting : List Waiting) (m : Machine) : Prop :=
  m.waiting = waiting → ∀ r, m.focus ≠ .returned r

namespace Safety

variable {waiting : List Waiting} {m m₁ m₂ : Machine} {r r' : Except Error (List Value)}
  {o o' : Objects}

/-- The call above `waiting` returns with a result, and leaves these objects. -/
def Ends (waiting : List Waiting) (m : Machine) (r : Except Error (List Value)) (o : Objects) :
    Prop :=
  ∃ s, Within waiting m ⟨s, .returned r, waiting⟩ ∧ s.objects = o

theorem open_of_wasm {s : Store} {act : Activation} {waiting' : List Waiting} :
    Machine.Open waiting ⟨s, .wasm act, waiting'⟩ :=
  fun _ _ h => nomatch h

theorem not_open_of_returned (s : Store) (r : Except Error (List Value)) :
    ¬ Machine.Open waiting ⟨s, .returned r, waiting⟩ :=
  fun h => h rfl r rfl

theorem eq_of_not_open (h : ¬ m.Open waiting) : ∃ s r, m = ⟨s, .returned r, waiting⟩ := by
  obtain ⟨s, focus, waiting'⟩ := m
  cases focus with
  | returned r =>
    by_cases hwaiting : waiting' = waiting
    · exact ⟨s, r, by rw [hwaiting]⟩
    · exact absurd (fun heq => absurd heq hwaiting) h
  | _ => exact absurd (fun _ _ heq => nomatch heq) h

/-! ### One way to go on -/

theorem Within.head (h : Within waiting m m₁) :
    m₁ = m ∨ m.Open waiting ∧ Within waiting m.step m₁ := by
  induction h with
  | refl => exact .inl rfl
  | step _ hopen ih =>
    rcases ih with rfl | ⟨hopen', hrest⟩
    · exact .inr ⟨hopen, .refl⟩
    · exact .inr ⟨hopen', hrest.step hopen⟩

theorem Within.moves (h : Within waiting m m₁) :
    Moves (fun _ => True) (state m) (state m₁) := by
  induction h with
  | refl => exact .refl
  | step _ _ ih => exact ih.trans (moves_step _)

/-- Of two machines that come after the same one, one comes after the other. -/
theorem Within.total (h₁ : Within waiting m m₁) (h₂ : Within waiting m m₂) :
    Within waiting m₁ m₂ ∨ Within waiting m₂ m₁ := by
  induction h₁ with
  | refl => exact .inl h₂
  | step _ hopen ih =>
    rcases ih with hfirst | hsecond
    · rcases hfirst.head with rfl | ⟨-, hrest⟩
      · exact .inr (.step .refl hopen)
      · exact .inl hrest
    · exact .inr (hsecond.step hopen)

/-- A call comes to one end. -/
theorem Within.unique (h₁ : Within waiting m m₁) (h₂ : Within waiting m m₂)
    (hend₁ : ¬ m₁.Open waiting) (hend₂ : ¬ m₂.Open waiting) : m₁ = m₂ := by
  rcases h₁.total h₂ with hrest | hrest
  · rcases hrest.head with heq | ⟨hopen, -⟩
    · exact heq.symm
    · exact absurd hopen hend₁
  · rcases hrest.head with heq | ⟨hopen, -⟩
    · exact heq
    · exact absurd hopen hend₂

/-- A call returns once. -/
theorem Ends.unique (h : Ends waiting m r o) (h' : Ends waiting m r' o') : r = r' ∧ o = o' := by
  obtain ⟨s, hs, rfl⟩ := h
  obtain ⟨s', hs', rfl⟩ := h'
  have heq := hs.unique hs' (not_open_of_returned s r) (not_open_of_returned s' r')
  cases heq
  exact ⟨rfl, rfl⟩

/-! ### Counting the steps -/

/-- The call above `waiting` takes at least as many steps before it returns. -/
def GoesOn (waiting : List Waiting) (n : Nat) (m : Machine) : Prop :=
  ∀ k < n, (Machine.step^[k] m).Open waiting

theorem Within.exists_iterate (h : Within waiting m m₁) : ∃ n, Machine.step^[n] m = m₁ := by
  induction h with
  | refl => exact ⟨0, rfl⟩
  | step _ _ ih =>
    obtain ⟨n, rfl⟩ := ih
    exact ⟨n + 1, Function.iterate_succ_apply' ..⟩

theorem GoesOn.within {n : Nat} (h : GoesOn waiting n m) :
    Within waiting m (Machine.step^[n] m) := by
  induction n with
  | zero => exact .refl
  | succ n ih =>
    rw [Function.iterate_succ_apply']
    exact (ih fun k hk => h k (Nat.lt_succ_of_lt hk)).step (h n (Nat.lt_succ_self n))

/-- A call that returns takes a certain number of steps. -/
theorem Ends.exists_bound (h : Ends waiting m r o) :
    ∃ n, ∀ {k : Nat}, GoesOn waiting k m → k ≤ n := by
  obtain ⟨s, hs, -⟩ := h
  obtain ⟨n, hn⟩ := hs.exists_iterate
  refine ⟨n, fun {k} hgoes => Nat.le_of_not_lt fun hlt => ?_⟩
  have hopen := hgoes n hlt
  rw [hn] at hopen
  exact not_open_of_returned s r hopen

/-! ### Runs -/

theorem Within.cons (hopen : m.Open waiting) (h : Within waiting m.step m₁) :
    Within waiting m m₁ := by
  induction h with
  | refl => exact .step .refl hopen
  | step _ hopen' ih => exact ih.step hopen'

/-- A machine that is open takes a step, if it has fuel for one. -/
theorem run_eq_of_open (h : m.Open []) :
    m.run 0 = none ∧ ∀ fuel, m.run (fuel + 1) = m.step.run fuel := by
  obtain ⟨s, focus, waiting⟩ := m
  cases focus with
  | returned r =>
    cases waiting with
    | nil => exact absurd rfl (h rfl r)
    | cons => exact ⟨rfl, fun _ => rfl⟩
  | _ => exact ⟨rfl, fun _ => rfl⟩

theorem run_returned (fuel : Nat) (s : Store) (r : Except Error (List Value)) :
    Machine.run fuel ⟨s, .returned r, []⟩ = some (r, s) := by
  cases fuel <;> rfl

theorem within_of_run {fuel : Nat} {s : Store} (h : m.run fuel = some (r, s)) :
    Within [] m ⟨s, .returned r, []⟩ := by
  by_cases hopen : m.Open []
  · induction fuel generalizing m with
    | zero =>
      rw [(run_eq_of_open hopen).1] at h
      cases h
    | succ fuel ih =>
      rw [(run_eq_of_open hopen).2] at h
      refine .cons hopen ?_
      by_cases hopen' : m.step.Open []
      · exact ih h hopen'
      · obtain ⟨s', r', heq⟩ := eq_of_not_open hopen'
        rw [heq, run_returned] at h
        rw [heq]
        cases h
        exact .refl
  · obtain ⟨s', r', rfl⟩ := eq_of_not_open hopen
    rw [run_returned] at h
    cases h
    exact .refl

/-- A computation that has come to its end has moved through its steps. -/
theorem moves_of_run {fuel : Nat} {s : Store} (h : m.run fuel = some (r, s)) :
    Moves (fun _ => True) (state m) (s, []) :=
  (within_of_run h).moves

theorem exists_run_of_within (fuel : Nat) {x : Except Error (List Value) × Store}
    (h : Within [] m m₁) (hrun : m₁.run fuel = some x) : ∃ fuel, m.run fuel = some x := by
  induction h generalizing fuel with
  | refl => exact ⟨fuel, hrun⟩
  | step _ hopen ih => exact ih _ (((run_eq_of_open hopen).2 _).trans hrun)

/-- With nothing below it, a call returns if and only if the run of the machine ends. -/
theorem ends_iff_run : Ends [] m r o ↔ ∃ fuel s, m.run fuel = some (r, s) ∧ s.objects = o := by
  constructor
  · rintro ⟨s, hs, ho⟩
    obtain ⟨fuel, hrun⟩ := exists_run_of_within 0 hs rfl
    exact ⟨fuel, s, hrun, ho⟩
  · rintro ⟨fuel, s, hrun, ho⟩
    exact ⟨s, within_of_run hrun, ho⟩

end Safety

end Wasm
