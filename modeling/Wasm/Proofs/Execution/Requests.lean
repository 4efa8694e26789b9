import Wasm.Machine.Answer
import Wasm.Proofs.Execution.Objects

/-!
# What host functions change

Whatever a host function asks for, the answer leaves one more event or changes objects
(`Store.served_answer`).  Unlike an instruction it may change tables, but all that it puts there are
functions that the host function can refer to.  A request that fails changes nothing
(`Store.answer_of_fails`).  The embedder does the same things to objects while nothing runs, with
functions that it knows.
-/

namespace Wasm

/-- What a request leaves of a store: one more event, or changed objects.  No functions are put in
tables but those that satisfy the condition. -/
inductive Store.Served (G : FuncRef → Prop) (s : Store) : Store → Prop where
  | emit (event : Event) : Served G s (s.emit event)
  | objects {o : Objects} (h : s.objects.Changes G o) : Served G s { s with objects := o }

namespace Store

variable {G : FuncRef → Prop} {s s' : Store}

theorem served_refl (G : FuncRef → Prop) (s : Store) : s.Served G s :=
  .objects .refl

theorem Served.instances (h : s.Served G s') : s'.instances = s.instances := by
  cases h <;> rfl

theorem Served.changes (h : s.Served G s') : s.objects.Changes G s'.objects := by
  cases h with
  | emit => exact .refl
  | objects h => exact h

/-- Setting a global writes once or not at all. -/
theorem served_assignGlobal (G : FuncRef → Prop) (s : Store) (a : Address) (v : Value) :
    s.Served G (s.assignGlobal a v).2 := by
  unfold assignGlobal
  split
  · next h => exact .objects (.single (.write (.global h)))
  · exact served_refl G s

theorem served_assignMemory (G : FuncRef → Prop) (s : Store) (a : Address) (offset : Nat)
    (data : List UInt8) : s.Served G (s.assignMemory a offset data).2 := by
  unfold assignMemory
  split
  · next h => exact .objects (.single (.write (.bytes h)))
  · exact served_refl G s

/-- A memory is grown, or nothing happens. -/
theorem growMemory_cases (s : Store) (a : Address) (delta : UInt32) :
    (∃ m old m', s.objects.memory a = .ok m ∧ m.grow delta = .ok (old, m') ∧
      s.growMemory a delta = (.ok old, { s with objects := s.objects.putMemory a m' })) ∨
    ∃ e, s.growMemory a delta = (.error e, s) ∧
      ((∃ t : Trap, e = t.error) ∨ ∃ m : Memory, m.grow delta = .error e) := by
  unfold growMemory
  split
  · next t _ => exact .inr ⟨_, rfl, .inl ⟨t, rfl⟩⟩
  · next m hm =>
    split
    · next e hgrow => exact .inr ⟨e, rfl, .inr ⟨m, hgrow⟩⟩
    · next old m' hgrow => exact .inl ⟨m, old, m', hm, hgrow, rfl⟩

theorem served_growMemory (G : FuncRef → Prop) (s : Store) (a : Address) (delta : UInt32) :
    s.Served G (s.growMemory a delta).2 := by
  rcases s.growMemory_cases a delta with ⟨m, old, m', hm, hgrow, hrun⟩ | ⟨e, hrun, -⟩
  · rw [hrun]
    exact .objects (.single (.write (.grow hm hgrow)))
  · rw [hrun]
    exact served_refl G s

/-- A table is grown, or nothing happens. -/
theorem growTable_cases (s : Store) (a : Address) (delta : UInt32) :
    (∃ t old t', s.objects.table a = .ok t ∧ t.grow delta = .ok (old, t') ∧
      s.growTable a delta = (.ok old, { s with objects := s.objects.putTable a t' })) ∨
    ∃ e, s.growTable a delta = (.error e, s) ∧
      ((∃ t : Trap, e = t.error) ∨ ∃ t : Table, t.grow delta = .error e) := by
  unfold growTable
  split
  · next t _ => exact .inr ⟨_, rfl, .inl ⟨t, rfl⟩⟩
  · next t ht =>
    split
    · next e hgrow => exact .inr ⟨e, rfl, .inr ⟨t, hgrow⟩⟩
    · next old t' hgrow => exact .inl ⟨t, old, t', ht, hgrow, rfl⟩

theorem served_growTable (G : FuncRef → Prop) (s : Store) (a : Address) (delta : UInt32) :
    s.Served G (s.growTable a delta).2 := by
  rcases s.growTable_cases a delta with ⟨t, old, t', ht, hgrow, hrun⟩ | ⟨e, hrun, -⟩
  · rw [hrun]
    exact .objects (.single (.growTable ht hgrow))
  · rw [hrun]
    exact served_refl G s

/-- A slot is set, or nothing happens. -/
theorem setSlot_cases (s : Store) (a : Address) (index : UInt32) (f : Option FuncRef) :
    (∃ t t', s.objects.table a = .ok t ∧ t.set index f = .ok t' ∧
      s.setSlot a index f = (.ok (), { s with objects := s.objects.putTable a t' })) ∨
    ∃ t : Trap, s.setSlot a index f = (.error t.error, s) := by
  unfold setSlot
  cases ht : s.objects.table a with
  | error e => exact .inr ⟨e, rfl⟩
  | ok t =>
    rw [Except.bind]
    cases hset : t.set index f with
    | error e => exact .inr ⟨e, rfl⟩
    | ok t' => exact .inl ⟨t, t', rfl, hset, rfl⟩

theorem served_setSlot (s : Store) (a : Address) (index : UInt32) {f : Option FuncRef}
    (hf : ∀ g, f = some g → G g) : s.Served G (s.setSlot a index f).2 := by
  rcases s.setSlot_cases a index f with ⟨t, t', ht, hset, hrun⟩ | ⟨t, hrun⟩
  · rw [hrun]
    exact .objects (.single (.setSlot ht hset hf))
  · rw [hrun]
    exact served_refl G s

theorem served_onObject {α : Type} {act : Address → α × Store} (place : Option Address)
    (h : ∀ a, s.Served G (act a).2) : s.Served G (s.onObject place act).2 := by
  cases place with
  | none => exact served_refl G s
  | some a => exact h a

/-- The answer to a request puts in tables what the host function can refer to. -/
theorem served_answer (caller : Caller) (request : Request)
    (hG : ∀ {source f}, s.funcAt caller source = some f → G f) :
    s.Served G (s.answer caller request).2 := by
  cases request with
  | emit event => exact .emit event
  | setGlobal target name v =>
    unfold answer
    dsimp only
    split
    · exact served_assignGlobal ..
    · exact served_refl G s
  | writeMemory name offset data =>
    unfold answer
    dsimp only
    cases s.memberOf caller .caller name with
    | none => exact served_refl G s
    | some member =>
      cases member with
      | memory a => exact served_assignMemory ..
      | _ => exact served_refl G s
  | setCell global v => exact served_onObject _ fun a => served_assignGlobal G s a v
  | putBytes memory offset data =>
    exact served_onObject _ fun a => served_assignMemory G s a offset data
  | growMemory memory delta => exact served_onObject _ fun a => served_growMemory G s a delta
  | growTable table delta => exact served_onObject _ fun a => served_growTable G s a delta
  | setSlot table index source =>
    cases source with
    | none => exact served_onObject _ fun a => s.served_setSlot a index fun g h => nomatch h
    | some source =>
      unfold answer
      dsimp only
      split
      · next f hf =>
        refine served_onObject _ fun a => s.served_setSlot a index fun g hg => ?_
        cases hg
        exact hG hf
      · exact served_refl G s
  | _ => exact served_refl G s

-- A host function puts a function of its module in a table that it holds, and finds its type there.
example (f : FuncRef) :
    let table (slots : Array (Option FuncRef)) : Objects := { tables := #[⟨⟨⟨1, none⟩⟩, slots⟩] }
    let caller : Caller := .native ⟨"host", [("f", .func f)]⟩
    let put := answer { objects := table #[none] } caller
      (.setSlot (.held 0) 0 (some (.member .caller "f")))
    put.2.objects = table #[some f] ∧
      (put.2.answer caller (.slotType (.held 0) 0)).1 = some (.ok (some f.type)) :=
  ⟨rfl, rfl⟩

end Store

/-! ### Requests that fail -/

/-- What is asked for has failed, or there is no object to do it to. -/
def FailsOn {α : Type} (r : Option (Except Error α)) : Prop :=
  ∀ a, r ≠ some (.ok a)

/-- The answer says that nothing has come of the request. -/
def Request.Fails : (request : Request) → request.Answer → Prop
  | .getGlobal .., r => FailsOn (α := Value) (some r)
  | .setGlobal .., r => FailsOn (α := Unit) (some r)
  | .writeMemory .., r => FailsOn (α := Unit) (some r)
  | .member .., r => r = (none : Option ExternType)
  | .readCell _, r => FailsOn (α := Value) r
  | .setCell .., r => FailsOn (α := Unit) r
  | .readBytes .., r => FailsOn (α := List UInt8) r
  | .putBytes .., r => FailsOn (α := Unit) r
  | .growMemory .., r => FailsOn (α := UInt32) r
  | .growTable .., r => FailsOn (α := UInt32) r
  | .slotType .., r => FailsOn (α := Option FuncType) r
  | .setSlot .., r => FailsOn (α := Unit) r
  | .emit _, _ | .exports _, _ | .hasMemory _, _ => False

namespace Store

variable {s : Store} {a : Address}

theorem assignGlobal_of_fails {v : Value} (h : FailsOn (some (s.assignGlobal a v).1)) :
    (s.assignGlobal a v).2 = s := by
  unfold assignGlobal at h ⊢
  split
  · next hset =>
    rw [hset] at h
    exact absurd rfl (h ())
  · rfl

theorem assignMemory_of_fails {offset : Nat} {data : List UInt8}
    (h : FailsOn (some (s.assignMemory a offset data).1)) :
    (s.assignMemory a offset data).2 = s := by
  unfold assignMemory at h ⊢
  split
  · next hwrite =>
    rw [hwrite] at h
    exact absurd rfl (h ())
  · rfl

theorem growMemory_of_fails {delta : UInt32} (h : FailsOn (some (s.growMemory a delta).1)) :
    (s.growMemory a delta).2 = s := by
  rcases s.growMemory_cases a delta with ⟨m, old, m', -, -, hrun⟩ | ⟨e, hrun, -⟩
  · rw [hrun] at h
    exact absurd rfl (h old)
  · rw [hrun]

theorem growTable_of_fails {delta : UInt32} (h : FailsOn (some (s.growTable a delta).1)) :
    (s.growTable a delta).2 = s := by
  rcases s.growTable_cases a delta with ⟨t, old, t', -, -, hrun⟩ | ⟨e, hrun, -⟩
  · rw [hrun] at h
    exact absurd rfl (h old)
  · rw [hrun]

theorem setSlot_of_fails {index : UInt32} {f : Option FuncRef}
    (h : FailsOn (some (s.setSlot a index f).1)) : (s.setSlot a index f).2 = s := by
  rcases s.setSlot_cases a index f with ⟨t, t', -, -, hrun⟩ | ⟨t, hrun⟩
  · rw [hrun] at h
    exact absurd rfl (h ())
  · rw [hrun]

theorem onObject_of_fails {α : Type} {place : Option Address}
    {act : Address → Except Error α × Store} (hact : ∀ a, FailsOn (some (act a).1) → (act a).2 = s)
    (h : FailsOn (s.onObject place act).1) : (s.onObject place act).2 = s := by
  cases place with
  | none => rfl
  | some a => exact hact a h

/-- **A request that fails changes nothing.** -/
theorem answer_of_fails {caller : Caller} {request : Request}
    (h : request.Fails (s.answer caller request).1) : (s.answer caller request).2 = s := by
  cases request with
  | emit => exact h.elim
  | setGlobal target name v =>
    unfold answer at h ⊢
    dsimp only at h ⊢
    cases hglobal : s.globalOf caller target name with
    | error e => rfl
    | ok a =>
      rw [hglobal] at h
      exact assignGlobal_of_fails h
  | writeMemory name offset data =>
    unfold answer at h ⊢
    dsimp only at h ⊢
    cases hmember : s.memberOf caller .caller name with
    | none => rfl
    | some member =>
      rw [hmember] at h
      cases member with
      | memory a => exact assignMemory_of_fails h
      | _ => rfl
  | setCell => exact onObject_of_fails (fun _ => assignGlobal_of_fails) h
  | putBytes => exact onObject_of_fails (fun _ => assignMemory_of_fails) h
  | growMemory => exact onObject_of_fails (fun _ => growMemory_of_fails) h
  | growTable => exact onObject_of_fails (fun _ => growTable_of_fails) h
  | setSlot table index source =>
    cases source with
    | none => exact onObject_of_fails (fun _ => setSlot_of_fails) h
    | some source =>
      unfold answer at h ⊢
      dsimp only at h ⊢
      cases hfunc : s.funcAt caller source with
      | none => rfl
      | some f =>
        rw [hfunc] at h
        exact onObject_of_fails (fun _ => setSlot_of_fails) h
  | _ => rfl

end Store

end Wasm
