import Wasm.Machine.Activation
import Wasm.Proofs.Execution.Objects

/-!
# What code sees

Code of an instance sees the objects that the instance is bound to, and no others: run on two
collections of objects that agree in a region around them, it does the same, and outside of the
region it changes nothing (`Enclosed`).  As with writes, nothing needs to be known about the code.
No code writes to a table at all.
-/

namespace Wasm

/-- Some of the objects of a store, by their addresses. -/
structure Region where
  memories : Address → Prop
  tables : Address → Prop
  globals : Address → Prop

/-- An instance is bound to nothing outside of a region. -/
structure Bindings.Inside (b : Bindings) (v : Region) : Prop where
  memory : ∀ {a : Address}, b.memory = some a → v.memories a
  table : ∀ {a : Address}, b.table = some a → v.tables a
  globals : ∀ {a : Address}, a ∈ b.globals → v.globals a

namespace Objects

/-- In a region the second objects are those of the first ones. -/
structure Agree (v : Region) (o o' : Objects) : Prop where
  memories : ∀ {a : Address}, v.memories a → o'.memories[a]? = o.memories[a]?
  tables : ∀ {a : Address}, v.tables a → o'.tables[a]? = o.tables[a]?
  globals : ∀ {a : Address}, v.globals a → o'.globals[a]? = o.globals[a]?

/-- Outside of a region the second objects are those of the first ones, and tables are
everywhere. -/
structure Confined (v : Region) (o o' : Objects) : Prop where
  memories : ∀ {a : Address}, ¬ v.memories a → o'.memories[a]? = o.memories[a]?
  tables : o'.tables = o.tables
  globals : ∀ {a : Address}, ¬ v.globals a → o'.globals[a]? = o.globals[a]?

variable {v : Region} {o o' o'' : Objects} {a : Address}

theorem agree_refl (v : Region) (o : Objects) : o.Agree v o :=
  ⟨fun _ => rfl, fun _ => rfl, fun _ => rfl⟩

theorem confined_refl (v : Region) (o : Objects) : o.Confined v o :=
  ⟨fun _ => rfl, rfl, fun _ => rfl⟩

theorem Confined.trans (h : o.Confined v o') (h' : o'.Confined v o'') : o.Confined v o'' :=
  ⟨fun ha => (h'.memories ha).trans (h.memories ha), h'.tables.trans h.tables,
    fun ha => (h'.globals ha).trans (h.globals ha)⟩

/-! ### Looking at objects -/

theorem Agree.memory (h : o.Agree v o') (ha : v.memories a) : o'.memory a = o.memory a := by
  rw [Objects.memory, Objects.memory, h.memories ha]

theorem Agree.table (h : o.Agree v o') (ha : v.tables a) : o'.table a = o.table a := by
  rw [Objects.table, Objects.table, h.tables ha]

theorem Agree.global (h : o.Agree v o') (ha : v.globals a) : o'.global a = o.global a := by
  rw [Objects.global, Objects.global, h.globals ha]

/-! ### Changing objects -/

/-- A change of the memory at an address. -/
theorem Agree.modifyMemory (h : o.Agree v o') (a : Address) (f : Memory → Memory) :
    Agree v { o with memories := o.memories.modify a f }
      { o' with memories := o'.memories.modify a f } := by
  refine ⟨fun {a'} ha => ?_, h.tables, h.globals⟩
  show (o'.memories.modify a f)[a']? = (o.memories.modify a f)[a']?
  rw [Array.getElem?_modify, Array.getElem?_modify, h.memories ha]

theorem confined_modifyMemory (o : Objects) (ha : v.memories a) (f : Memory → Memory) :
    o.Confined v { o with memories := o.memories.modify a f } := by
  refine ⟨fun {a'} ha' => ?_, rfl, fun _ => rfl⟩
  have hne : a ≠ a' := fun heq => ha' (heq ▸ ha)
  show (o.memories.modify a f)[a']? = _
  rw [Array.getElem?_modify, if_neg hne]

/-- A change of the global at an address. -/
theorem Agree.modifyGlobal (h : o.Agree v o') (a : Address) (f : Cell → Cell) :
    Agree v { o with globals := o.globals.modify a f }
      { o' with globals := o'.globals.modify a f } := by
  refine ⟨h.memories, h.tables, fun {a'} ha => ?_⟩
  show (o'.globals.modify a f)[a']? = (o.globals.modify a f)[a']?
  rw [Array.getElem?_modify, Array.getElem?_modify, h.globals ha]

theorem confined_modifyGlobal (o : Objects) (ha : v.globals a) (f : Cell → Cell) :
    o.Confined v { o with globals := o.globals.modify a f } := by
  refine ⟨fun _ => rfl, rfl, fun {a'} ha' => ?_⟩
  have hne : a ≠ a' := fun heq => ha' (heq ▸ ha)
  show (o.globals.modify a f)[a']? = _
  rw [Array.getElem?_modify, if_neg hne]

theorem setIfInBounds_eq_modify {α : Type} (xs : Array α) (k : Nat) (y : α) :
    xs.setIfInBounds k y = xs.modify k fun _ => y := by
  refine Array.ext (by simp) fun n hn hn' => ?_
  rw [Array.getElem_setIfInBounds (by simpa using hn), Array.getElem_modify]

theorem putMemory_eq_modify (o : Objects) (a : Address) (m : Memory) :
    o.putMemory a m = { o with memories := o.memories.modify a fun _ => m } := by
  rw [putMemory, setIfInBounds_eq_modify]

theorem putGlobal_eq_modify (o : Objects) (a : Address) (c : Cell) :
    o.putGlobal a c = { o with globals := o.globals.modify a fun _ => c } := by
  rw [putGlobal, setIfInBounds_eq_modify]

end Objects

namespace Execution

/-- The same thread over objects that agree in a region. -/
structure Twin (v : Region) (x x' : Execution) : Prop where
  thread : x'.thread = x.thread
  objects : x.objects.Agree v x'.objects

/-- Two states after two others: they are twins again, and what lies outside of the region is as it
was in each of them. -/
structure After (v : Region) (x x' y y' : Execution) : Prop where
  twin : Twin v y y'
  left : x.objects.Confined v y.objects
  right : x'.objects.Confined v y'.objects

/-- Two results are the same, and the states that go with them are related. -/
inductive Alike {ε σ α : Type} (P : σ → σ → Prop) :
    EStateM.Result ε σ α → EStateM.Result ε σ α → Prop
  | ok {r : α} {x x' : σ} (h : P x x') : Alike P (.ok r x) (.ok r x')
  | error {e : ε} {x x' : σ} (h : P x x') : Alike P (.error e x) (.error e x')

/-- A part of an execution depends on nothing outside of a region and changes nothing there. -/
structure Enclosed {α : Type} (v : Region) (c : Step α) : Prop where
  alike : ∀ {x x' : Execution}, Twin v x x' → Alike (After v x x') (c x) (c x')

section

variable {α β : Type} {v : Region} {c : Step α} {f : α → Step β} {x x' y y' z z' : Execution}
  {b : Bindings}

theorem Twin.after (h : Twin v x x') : After v x x' x x' :=
  ⟨h, Objects.confined_refl v _, Objects.confined_refl v _⟩

theorem After.trans (h : After v x x' y y') (h' : After v y y' z z') : After v x x' z z' :=
  ⟨h'.twin, h.left.trans h'.left, h.right.trans h'.right⟩

theorem Alike.cases {ε σ : Type} {P : σ → σ → Prop} {r r' : EStateM.Result ε σ α}
    (h : Alike P r r') : (∃ a x x', r = .ok a x ∧ r' = .ok a x' ∧ P x x') ∨
      ∃ e x x', r = .error e x ∧ r' = .error e x' ∧ P x x' := by
  cases h with
  | ok h => exact .inl ⟨_, _, _, rfl, rfl, h⟩
  | error h => exact .inr ⟨_, _, _, rfl, rfl, h⟩

theorem Alike.mono {ε σ : Type} {P Q : σ → σ → Prop} {r r' : EStateM.Result ε σ α}
    (h : Alike P r r') (hPQ : ∀ {x x'}, P x x' → Q x x') : Alike Q r r' := by
  cases h with
  | ok h => exact .ok (hPQ h)
  | error h => exact .error (hPQ h)

theorem enclosed_pure (a : α) : Enclosed v (pure a : Step α) :=
  ⟨fun h => .ok h.after⟩

theorem enclosed_throw (e : Error) : Enclosed v (throw e : Step α) :=
  ⟨fun h => .error h.after⟩

theorem enclosed_orTrap (r : Except Trap α) : Enclosed v (orTrap r) := by
  cases r with
  | ok a => exact enclosed_pure a
  | error t => exact enclosed_throw _

/-- A value that may be missing. -/
theorem enclosed_found {r : Except Trap α} (h : ∀ {a}, r = .ok a → Enclosed v (f a)) :
    Enclosed v (orTrap r >>= f) := by
  cases r with
  | ok a => exact h rfl
  | error t => exact enclosed_throw _

theorem Enclosed.bind (h : Enclosed v c) (hf : ∀ a, Enclosed v (f a)) : Enclosed v (c >>= f) := by
  refine ⟨fun {x x'} hx => ?_⟩
  show Alike (After v x x') (EStateM.bind c f x) (EStateM.bind c f x')
  unfold EStateM.bind
  rcases (h.alike hx).cases with ⟨a, y, y', hrun, hrun', hafter⟩ | ⟨e, y, y', hrun, hrun', hafter⟩
  · rw [hrun, hrun']
    exact ((hf a).alike hafter.twin).mono hafter.trans
  · rw [hrun, hrun']
    exact .error hafter

/-- A failure is given a context, and nothing else happens to it. -/
theorem Enclosed.rethrown {context : Error → Error} (h : Enclosed v c) :
    Enclosed v (tryCatch c fun e => throw (context e)) := by
  refine ⟨fun {x x'} hx => ?_⟩
  show Alike (After v x x') (EStateM.tryCatch c _ x) (EStateM.tryCatch c _ x')
  delta EStateM.tryCatch
  dsimp only
  rcases (h.alike hx).cases with ⟨a, y, y', hrun, hrun', hafter⟩ | ⟨e, y, y', hrun, hrun', hafter⟩
  · rw [hrun, hrun']
    exact .ok hafter
  · rw [hrun, hrun']
    exact .error hafter

/-- Code that goes on in the same way from twins may look at the state. -/
theorem enclosed_get {f : Execution → Step β} (heq : ∀ {x x'}, Twin v x x' → f x' = f x)
    (h : ∀ x, Enclosed v (f x)) : Enclosed v (get >>= f) := by
  refine ⟨fun {x x'} hx => ?_⟩
  show Alike _ (f x x) (f x' x')
  rw [heq hx]
  exact (h x).alike hx

theorem enclosed_thread {f : Thread → Step β} (h : ∀ t, Enclosed v (f t)) :
    Enclosed v (get >>= fun x => f x.thread) :=
  enclosed_get (fun hx => congrArg f hx.thread) fun x => h x.thread

theorem enclosed_modifyThread (g : Thread → Thread) :
    Enclosed v (modify fun x => { x with thread := g x.thread } : Step PUnit) :=
  ⟨fun hx => .ok ⟨⟨congrArg g hx.thread, hx.objects⟩, Objects.confined_refl v _,
    Objects.confined_refl v _⟩⟩

theorem enclosed_modifyObjects {g : Objects → Objects}
    (hagree : ∀ {o o' : Objects}, o.Agree v o' → (g o).Agree v (g o'))
    (hconfined : ∀ o : Objects, o.Confined v (g o)) :
    Enclosed v (modify fun x => { x with objects := g x.objects } : Step PUnit) :=
  ⟨fun hx => .ok ⟨⟨hx.thread, hagree hx.objects⟩, hconfined _, hconfined _⟩⟩

/-! ### Stacks -/

theorem enclosed_operands {f : OperandStack → Step β} (h : ∀ s, Enclosed v (f s)) :
    Enclosed v (operands >>= f) :=
  @enclosed_thread β v (fun t => f t.operands) fun t => h t.operands

theorem enclosed_setOperands (s : OperandStack) : Enclosed v (setOperands s) :=
  enclosed_modifyThread fun t => { t with operands := s }

theorem enclosed_setFrames (frames : Stack Frame) : Enclosed v (setFrames frames) :=
  enclosed_modifyThread fun t => { t with frames := frames }

theorem enclosed_push (slot : UInt64) : Enclosed v (push slot) :=
  enclosed_operands fun _ => (enclosed_orTrap _).bind fun _ => enclosed_setOperands _

theorem enclosed_pop : Enclosed v pop :=
  enclosed_operands fun _ => (enclosed_orTrap _).bind fun _ =>
    (enclosed_setOperands _).bind fun _ => enclosed_pure _

theorem enclosed_popU32 : Enclosed v popU32 :=
  enclosed_pop.bind fun _ => enclosed_pure _

theorem enclosed_exitFrame : Enclosed v exitFrame := by
  refine enclosed_get (fun hx => by rw [hx.thread]) fun x => ?_
  cases x.thread.frames.pop? with
  | none => exact enclosed_throw _
  | some popped =>
    refine enclosed_operands fun _ => (enclosed_orTrap _).bind fun _ =>
      (enclosed_setOperands _).bind fun _ => (enclosed_setFrames _).bind fun _ => ?_
    split
    · exact enclosed_modifyThread fun t => { t with
        localBase := popped.1.savedLocalBase, callDepth := t.callDepth - 1 }
    · exact enclosed_pure _

/-! ### Control -/

theorem enclosed_baseBelow (params : Nat) : Enclosed v (baseBelow params) := by
  refine enclosed_operands fun s => ?_
  show Enclosed v (ite _ _ _)
  split
  · exact enclosed_throw _
  · exact enclosed_pure _

theorem enclosed_enter (kind : FrameKind) (type : BlockType) (body : Expr) :
    Enclosed v (enter b kind type body) := by
  have htype : Enclosed v (blockType b type) := by
    unfold blockType
    split
    · exact enclosed_pure _
    · exact enclosed_throw _
    · exact enclosed_pure _
  exact htype.bind fun t => (enclosed_baseBelow _).bind fun base =>
    enclosed_thread (f := fun thread => setFrames (thread.frames.push
      (.enter kind body base t.params.length t.results.length))) fun _ => enclosed_setFrames _

theorem enclosed_branch (depth : UInt32) : Enclosed v (branch depth) := by
  refine enclosed_get (fun hx => by rw [hx.thread]) fun x => ?_
  show Enclosed v (ite _ _ _)
  split
  · exact enclosed_throw _
  · refine (enclosed_setFrames _).bind fun _ => ?_
    cases (x.thread.frames.drop depth.toNat).items with
    | nil => exact enclosed_throw _
    | cons f _ =>
      show Enclosed v (ite _ _ _)
      split
      · exact enclosed_operands fun _ => (enclosed_orTrap _).bind fun _ =>
          (enclosed_setOperands _).bind fun _ => enclosed_setFrames _
      · exact enclosed_exitFrame

theorem enclosed_ret : Enclosed v ret := by
  refine enclosed_get (fun hx => by rw [hx.thread]) fun x => ?_
  cases x.thread.frames.items.findIdx? (·.kind = .call) with
  | none => exact enclosed_throw _
  | some depth => exact enclosed_branch _

theorem enclosed_leave (g : FuncRef) : Enclosed v (some <$> leave g) :=
  Enclosed.bind (enclosed_operands fun _ => (enclosed_orTrap _).bind fun _ =>
    (enclosed_setOperands _).bind fun _ => enclosed_pure _) fun _ => enclosed_pure _

theorem enclosed_call (index : UInt32) : Enclosed v (call b index) := by
  refine (enclosed_orTrap _).bind fun g => ?_
  cases g with
  | imported g => exact enclosed_leave g
  | defined type localCount body =>
    refine enclosed_get (fun hx => by rw [hx.thread]) fun x => ?_
    show Enclosed v (ite _ _ _)
    split
    · exact enclosed_throw _
    · exact (enclosed_baseBelow _).bind fun base => (enclosed_orTrap _).bind fun _ =>
        (enclosed_setOperands _).bind fun _ => Enclosed.bind (enclosed_modifyThread fun t =>
          { t with
            frames := x.thread.frames.push { Frame.enter .call body base type.params.length
              type.results.length with savedLocalBase := x.thread.localBase }
            localBase := base
            callDepth := x.thread.callDepth + 1 }) fun _ => enclosed_pure _

/-! ### Objects of the instance -/

variable (hb : b.Inside v)
include hb

theorem global_inside {index : UInt32} {a : Address} (h : b.globalAt index = .ok a) :
    v.globals a := by
  unfold Bindings.globalAt at h
  split at h
  · next ha =>
    cases h
    exact hb.globals (Array.mem_of_getElem? ha)
  · cases h

theorem memory_inside {a : Address} (h : b.memoryAt = .ok a) : v.memories a := by
  unfold Bindings.memoryAt at h
  split at h
  · next ha =>
    cases h
    exact hb.memory ha
  · cases h

theorem table_inside {a : Address} (h : b.tableAt = .ok a) : v.tables a := by
  unfold Bindings.tableAt at h
  split at h
  · next ha =>
    cases h
    exact hb.table ha
  · cases h

theorem enclosed_global {f : Cell → Step β} (index : UInt32) (h : ∀ c, Enclosed v (f c)) :
    Enclosed v (get >>= fun x => orTrap (b.globalAt index) >>= fun a =>
      orTrap (x.objects.global a) >>= f) := by
  refine enclosed_get (fun {x x'} hx => ?_) fun x => (enclosed_orTrap _).bind fun _ =>
    (enclosed_orTrap _).bind h
  cases hat : b.globalAt index with
  | error t => rfl
  | ok a =>
    show orTrap (x'.objects.global a) >>= f = orTrap (x.objects.global a) >>= f
    rw [hx.objects.global (global_inside hb hat)]

theorem enclosed_memory {f : Memory → Step β} (h : ∀ m, Enclosed v (f m)) :
    Enclosed v (get >>= fun x => orTrap b.memoryAt >>= fun a =>
      orTrap (x.objects.memory a) >>= f) := by
  refine enclosed_get (fun {x x'} hx => ?_) fun x => (enclosed_orTrap _).bind fun _ =>
    (enclosed_orTrap _).bind h
  cases hat : b.memoryAt with
  | error t => rfl
  | ok a =>
    show orTrap (x'.objects.memory a) >>= f = orTrap (x.objects.memory a) >>= f
    rw [hx.objects.memory (memory_inside hb hat)]

theorem enclosed_callIndirect (typeIndex : UInt32) : Enclosed v (callIndirect b typeIndex) := by
  refine enclosed_popU32.bind fun slot => enclosed_found fun {a} hat => enclosed_get
    (fun hx => by rw [hx.objects.table (table_inside hb hat)]) fun x => (enclosed_orTrap _).bind
    fun table => (enclosed_orTrap _).bind fun entry => ?_
  cases entry with
  | none => exact enclosed_throw _
  | some g =>
    dsimp only
    split
    · exact enclosed_throw _
    · split
      · exact enclosed_throw _
      · split
        · exact enclosed_call _
        · exact enclosed_leave g

theorem enclosed_globalSet (index : UInt32) : Enclosed v (globalSet b index) := by
  refine enclosed_pop.bind fun slot => enclosed_found fun {a} hat => enclosed_get
    (fun hx => by rw [hx.objects.global (global_inside hb hat)]) fun x => (enclosed_orTrap _).bind
    fun cell => (enclosed_orTrap _).bind fun cell' => ?_
  have hin := global_inside hb hat
  refine enclosed_modifyObjects (g := fun o => o.putGlobal a cell') (fun {o o'} h => ?_) fun o => ?_
  · rw [Objects.putGlobal_eq_modify, Objects.putGlobal_eq_modify]
    exact h.modifyGlobal a _
  · rw [Objects.putGlobal_eq_modify]
    exact Objects.confined_modifyGlobal o hin _

theorem enclosed_load (m : MemArg) (count : Nat) (decode : Nat → UInt64) :
    Enclosed v (load b m count decode) :=
  enclosed_popU32.bind fun _ => enclosed_memory hb fun _ => (enclosed_orTrap _).bind fun _ =>
    enclosed_push _

theorem enclosed_store (m : MemArg) (count : Nat) : Enclosed v (store b m count) := by
  refine enclosed_pop.bind fun slot => enclosed_popU32.bind fun address => enclosed_found
    fun {a} hat => enclosed_get
    (fun hx => by rw [hx.objects.memory (memory_inside hb hat)]) fun x => (enclosed_orTrap _).bind
    fun memory => ?_
  show Enclosed v (ite _ _ _)
  split
  · exact enclosed_modifyObjects (g := fun o => o.putBytes a (effectiveAddress m address)
      (LittleEndian.encode count slot.toNat)) (fun h => h.modifyMemory a _)
      fun o => Objects.confined_modifyMemory o (memory_inside hb hat) _
  · exact enclosed_throw _

theorem enclosed_memoryGrow : Enclosed v (memoryGrow b) := by
  refine enclosed_popU32.bind fun delta => enclosed_found fun {a} hat => enclosed_get
    (fun hx => by rw [hx.objects.memory (memory_inside hb hat)]) fun x => (enclosed_orTrap _).bind
    fun memory => ?_
  cases memory.grow delta with
  | error e => exact enclosed_push _
  | ok grown =>
    refine Enclosed.bind (enclosed_modifyObjects (g := fun o => o.putMemory a grown.2)
      (fun {o o'} h => ?_) fun o => ?_) fun _ => enclosed_push _
    · rw [Objects.putMemory_eq_modify, Objects.putMemory_eq_modify]
      exact h.modifyMemory a _
    · rw [Objects.putMemory_eq_modify]
      exact Objects.confined_modifyMemory o (memory_inside hb hat) _

omit hb

/-! ### Instructions -/

theorem enclosed_localAt {f : Nat → Step β} {index : UInt32} (h : ∀ k, Enclosed v (f k)) :
    Enclosed v (localAt index >>= f) :=
  @enclosed_thread β v (fun t => f (t.localBase + index.toNat)) fun _ => h _

theorem enclosed_assign (index : UInt32) (slot : UInt64) :
    Enclosed v (do setOperands (← orTrap ((← operands).set (← localAt index) slot))) :=
  enclosed_operands fun _ => enclosed_localAt fun _ => (enclosed_orTrap _).bind fun _ =>
    enclosed_setOperands _

theorem enclosed_operate (f : Operator) : Enclosed v (operate f) := by
  cases f with
  | unary eval => exact enclosed_pop.bind fun _ => (enclosed_orTrap _).bind fun _ => enclosed_push _
  | binary eval =>
    exact enclosed_pop.bind fun _ => enclosed_pop.bind fun _ => (enclosed_orTrap _).bind fun _ =>
      enclosed_push _

theorem enclosed_simple (hb : b.Inside v) (i : Instr) : Enclosed v (simple b i) := by
  unfold simple
  split
  · exact enclosed_pure _
  · exact enclosed_pop.bind fun _ => enclosed_pure _
  · exact enclosed_popU32.bind fun _ => enclosed_pop.bind fun _ => enclosed_pop.bind fun _ =>
      enclosed_push _
  · exact enclosed_operands fun _ => enclosed_localAt fun _ => (enclosed_orTrap _).bind fun _ =>
      enclosed_push _
  · exact enclosed_pop.bind fun slot => enclosed_assign _ slot
  · exact enclosed_operands fun _ => (enclosed_orTrap _).bind fun slot => enclosed_assign _ slot
  · exact enclosed_global hb _ fun _ => enclosed_push _
  · exact enclosed_globalSet hb _
  · exact enclosed_load hb ..
  · exact enclosed_load hb ..
  · exact enclosed_store hb ..
  · exact enclosed_store hb ..
  · exact enclosed_memory hb fun _ => enclosed_push _
  · exact enclosed_memoryGrow hb
  · exact enclosed_push _
  · exact enclosed_operate _
  · split
    · exact enclosed_operate _
    · exact enclosed_throw _

/-- A part after which nothing is left to be called. -/
theorem Enclosed.thenNone {c : Step Unit} (h : Enclosed v c) :
    Enclosed v (c >>= fun _ => pure (none : Option Call)) :=
  h.bind fun _ => enclosed_pure _

theorem enclosed_execute (hb : b.Inside v) (i : Instr) : Enclosed v (execute b i) := by
  unfold execute
  split
  · exact enclosed_throw _
  · exact (enclosed_enter ..).thenNone
  · exact (enclosed_enter ..).thenNone
  · exact enclosed_popU32.bind fun _ => (enclosed_enter ..).thenNone
  · exact (enclosed_branch _).thenNone
  · refine enclosed_popU32.bind fun condition => ?_
    by_cases hcondition : condition ≠ 0
    · rw [if_pos hcondition]
      exact (enclosed_branch _).thenNone
    · rw [if_neg hcondition]
      exact enclosed_pure _
  · exact enclosed_popU32.bind fun _ => (enclosed_branch _).thenNone
  · exact enclosed_ret.thenNone
  · exact enclosed_call _
  · exact enclosed_callIndirect hb _
  · exact (enclosed_simple hb _).thenNone

end

end Execution

/-! ### Parts of an activation -/

namespace Activation

open Execution

variable {v : Region} {b : Bindings}

theorem enclosed_advance (hb : b.Inside v) : Enclosed v (advance b) := by
  refine enclosed_get (fun hx => by rw [hx.thread]) fun x => ?_
  cases x.thread.frames.items with
  | nil => exact enclosed_throw _
  | cons f _ =>
    dsimp only
    cases f.rest with
    | nil => exact enclosed_exitFrame.bind fun _ => enclosed_pure _
    | cons i rest =>
      refine enclosed_get (fun hx => by rw [hx.thread]) fun x => (enclosed_setFrames _).bind
        fun _ => ?_
      exact (enclosed_execute hb i).rethrown.bind fun _ => enclosed_pure _

theorem enclosed_enter (index : UInt32) (args : List Value) : Enclosed v (enter index args b) :=
  enclosed_operands fun _ => (enclosed_orTrap _).bind fun _ => (enclosed_setOperands _).bind
    fun _ => enclosed_call index

theorem enclosed_resume (type : FuncType) (values : List Value) :
    Enclosed v (resume type values) := by
  unfold resume
  split
  · exact enclosed_throw _
  · exact enclosed_operands fun _ => (enclosed_orTrap _).bind fun _ => enclosed_setOperands _

theorem enclosed_finish (types : List ValueType) : Enclosed v (finish types) :=
  enclosed_operands fun _ => (enclosed_orTrap _).bind fun _ => (enclosed_setOperands _).bind
    fun _ => enclosed_pure _

end Activation

end Wasm
