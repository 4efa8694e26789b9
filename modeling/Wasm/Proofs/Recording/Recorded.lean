import Wasm.Error

/-!
# Computations that keep a record

A computation on states says where it ends, and nothing about where it has been; if it fails then it
does not even say where it ended.  `Recorded` is a computation that keeps a record of what happens
on the way, which is there for failures as well.  A recorded computation is written like the one
that it records, part by part, and `Records` says that it does the same apart from the record.

What holds of everything in a record follows from the parts (`mem_record_bind`, `result_bind`).
-/

namespace Wasm

/-- A computation on states that keeps a record, also if it fails. -/
def Recorded (ω σ α : Type) : Type :=
  σ → List ω × Except Error (α × σ)

namespace Recorded

variable {ω σ α β : Type}

/-- What is recorded on the way from a state. -/
def record (r : Recorded ω σ α) (s : σ) : List ω :=
  (r s).1

/-- The computation without the record. -/
def result (r : Recorded ω σ α) : StateT σ (Except Error) α := fun s =>
  (r s).2

/-- The second computation goes on where the first has ended, with a record that is longer. -/
def andThen (r : Recorded ω σ α) (f : α → Recorded ω σ β) : Recorded ω σ β := fun s =>
  match r s with
  | (record, .ok (a, s')) => (record ++ (f a).record s', (f a).result s')
  | (record, .error e) => (record, .error e)

instance : Monad (Recorded ω σ) where
  pure a s := ([], .ok (a, s))
  bind := andThen

/-- Fails. -/
def fail (e : Error) : Recorded ω σ α := fun _ =>
  ([], .error e)

/-- Goes on after a failure from the state before, with a record of both. -/
def orElse (r : Recorded ω σ α) (f : Error → Recorded ω σ α) : Recorded ω σ α := fun s =>
  match r s with
  | (record, .ok p) => (record, .ok p)
  | (record, .error e) => (record ++ (f e).record s, (f e).result s)

instance : MonadExcept Error (Recorded ω σ) where
  throw := fail
  tryCatch := orElse

/-- Puts a context in front of a failure. -/
def within (outer : Unit → String) (r : Recorded ω σ α) : Recorded ω σ α := fun s =>
  (r.record s, withContext outer (r.result s))

/-- A computation that counts as one step: if it succeeds then the state after it is recorded. -/
def step (mark : σ → ω) (c : StateT σ (Except Error) α) : Recorded ω σ α := fun s =>
  match c s with
  | .ok (a, s') => ([mark s'], .ok (a, s'))
  | .error e => ([], .error e)

/-! ### Records and results -/

variable {r : Recorded ω σ α} {f : α → Recorded ω σ β} {s s' : σ} {a : α} {b : β} {t : ω}

theorem result_bind : (r >>= f).result = r.result >>= fun a => (f a).result := by
  funext s
  show (andThen r f s).2 = (r s).2.bind _
  unfold andThen
  split
  · next heq =>
    rw [heq]
    rfl
  · next heq =>
    rw [heq]
    rfl

theorem bind_eq_ok {c : StateT σ (Except Error) α} {g : α → StateT σ (Except Error) β} :
    (c >>= g) s = .ok (b, s') ↔ ∃ a s₁, c s = .ok (a, s₁) ∧ g a s₁ = .ok (b, s') := by
  show (c s).bind _ = _ ↔ _
  cases hc : c s with
  | error e =>
    refine ⟨fun h => ?_, ?_⟩
    · cases h
    · rintro ⟨a, s₁, h, -⟩
      cases h
  | ok p =>
    refine ⟨fun h => ⟨p.1, p.2, rfl, h⟩, ?_⟩
    rintro ⟨a, s₁, h, hg⟩
    cases h
    exact hg

theorem record_bind_of_ok (h : r.result s = .ok (a, s')) :
    (r >>= f).record s = r.record s ++ (f a).record s' := by
  replace h : (r s).2 = .ok (a, s') := h
  show (andThen r f s).1 = (r s).1 ++ _
  unfold andThen
  split
  · next heq =>
    rw [heq] at h
    cases h
    rw [heq]
  · next heq =>
    rw [heq] at h
    cases h

theorem record_bind_of_error {e : Error} (h : r.result s = .error e) :
    (r >>= f).record s = r.record s := by
  replace h : (r s).2 = .error e := h
  show (andThen r f s).1 = (r s).1
  unfold andThen
  split
  · next heq =>
    rw [heq] at h
    cases h
  · next heq =>
    rw [heq]

theorem mem_record_bind : t ∈ (r >>= f).record s ↔
    t ∈ r.record s ∨ ∃ a s', r.result s = .ok (a, s') ∧ t ∈ (f a).record s' := by
  cases h : r.result s with
  | error e =>
    rw [record_bind_of_error h]
    refine ⟨.inl, ?_⟩
    rintro (ht | ⟨a, s', hok, -⟩)
    · exact ht
    · cases hok
  | ok p =>
    obtain ⟨a, s'⟩ := p
    rw [record_bind_of_ok h, List.mem_append]
    refine or_congr_right ⟨fun ht => ⟨a, s', rfl, ht⟩, ?_⟩
    rintro ⟨a', s'', hok, ht⟩
    cases hok
    exact ht

theorem result_bind_eq_ok : (r >>= f).result s = .ok (b, s') ↔
    ∃ a s₁, r.result s = .ok (a, s₁) ∧ (f a).result s₁ = .ok (b, s') := by
  rw [result_bind]
  exact bind_eq_ok

theorem mem_record_step {mark : σ → ω} {c : StateT σ (Except Error) α} :
    t ∈ (step mark c).record s ↔ ∃ a s', c s = .ok (a, s') ∧ t = mark s' := by
  show t ∈ (step mark c s).1 ↔ _
  unfold step
  split
  · next a s' heq =>
    rw [heq, List.mem_singleton]
    refine ⟨fun h => ⟨a, s', rfl, h⟩, ?_⟩
    rintro ⟨a', s'', hok, h⟩
    cases hok
    exact h
  · next e heq =>
    rw [heq]
    refine ⟨fun h => absurd h List.not_mem_nil, ?_⟩
    rintro ⟨a, s', hok, -⟩
    cases hok

@[simp] theorem result_step (mark : σ → ω) (c : StateT σ (Except Error) α) :
    (step mark c).result = c := by
  funext s
  show (step mark c s).2 = _
  unfold step
  split
  · next heq => exact heq.symm
  · next heq => exact heq.symm

theorem result_within_eq_ok {outer : Unit → String} :
    (within outer r).result s = .ok (a, s') ↔ r.result s = .ok (a, s') := by
  show withContext outer (r.result s) = _ ↔ _
  cases r.result s with
  | ok p => rfl
  | error e =>
    refine ⟨fun h => ?_, fun h => ?_⟩
    · cases h
    · cases h

/-! ### What a recorded computation records -/

/-- Apart from the record, the recorded computation does the same. -/
def Records (r : Recorded ω σ α) (c : StateT σ (Except Error) α) : Prop :=
  r.result = c

variable {c : StateT σ (Except Error) α} {g : α → StateT σ (Except Error) β}

theorem records_pure (a : α) :
    Records (pure a : Recorded ω σ α) (pure a : StateT σ (Except Error) α) :=
  rfl

theorem records_throw (e : Error) :
    Records (throw e : Recorded ω σ α) (throw e : StateT σ (Except Error) α) :=
  rfl

theorem records_step (mark : σ → ω) (c : StateT σ (Except Error) α) : Records (step mark c) c :=
  result_step mark c

theorem Records.bind (h : Records r c) (hf : ∀ a, Records (f a) (g a)) :
    Records (r >>= f) (c >>= g) := by
  have hnext : (fun a => (f a).result) = g := funext hf
  rw [Records, result_bind, hnext]
  exact congrArg (· >>= g) h

theorem Records.within (h : Records r c) (outer : Unit → String) :
    Records (r.within outer) fun s => withContext outer (c s) :=
  funext fun s => congrArg (withContext outer) (congrFun h s)

end Recorded

end Wasm
