import Wasm.Proofs.Structured.Progress

/-!
# The machine simulates the structured semantics

For the body of a block that is being run at a place of the machine, `Simulates` says what each
outcome of the structured semantics means there: the frame of the block is at its end, the machine
has landed at the frame of a label or of the call, it has stopped with the code of the trap, or, if
the fuel did not suffice, it has taken at least as many steps.  The simulation goes by induction on
the fuel: nested bodies and repetitions of loops take less of it, and each of them costs the machine
a step.
-/

namespace Wasm.Structured

open Typing (Context HasType SeqHasType)
open Activation (advance)
open Execution (landed left drop_withRest findIdx?_withRest)

/-- Every function that the module declares is bound, to one from outside only if the module imports
functions, and the body of a function that the instance defines is typed and not nested deeper than
branches can reach. -/
structure Wired (b : Bindings) : Prop where
  func : ∀ {x : UInt32} {type : FuncType}, b.module.funcType? x = some type →
    ∃ f, b.func x = .ok f ∧ f.type = type
  body : ∀ {x : UInt32} {type : FuncType} {localCount : Nat} {e : Expr},
    b.func x = .ok (.defined type localCount e) →
    ∃ declared, declared.length = localCount ∧
      SeqHasType (.ofBody b.module (type.params ++ declared) type.results) e [] type.results ∧
      Expr.nesting e < 4294967296
  imports : ∀ {x : UInt32} {r : FuncRef}, b.func x = .ok (.imported r) →
    0 < b.module.importCount .func

/-! ### Steps -/

/-- The second execution is reached from the first one in as many steps, each of them taken with
more than `floor` frames. -/
inductive Advances (b : Bindings) (floor : Nat) : Nat → Execution → Execution → Prop where
  | refl (x : Execution) : Advances b floor 0 x x
  | step {k : Nat} {x y z : Execution} (hframes : floor < x.thread.frames.height)
      (hstep : advance b x = .ok none y) (hrest : Advances b floor k y z) :
      Advances b floor (k + 1) x z

variable {b : Bindings} {floor : Nat}

theorem Advances.trans {k k' : Nat} {x y z : Execution} (h : Advances b floor k x y)
    (h' : Advances b floor k' y z) : Advances b floor (k' + k) x z := by
  induction h with
  | refl => exact h'
  | step hframes hstep _ ih => exact .step hframes hstep (ih h')

theorem Advances.single {x y : Execution} (hframes : floor < x.thread.frames.height)
    (hstep : advance b x = .ok none y) : Advances b floor 1 x y :=
  .step hframes hstep (.refl y)

/-- No step is left to take: the frames above `floor` are closed, or the next step is none. -/
def Halted (b : Bindings) (floor : Nat) (x : Execution) : Prop :=
  ∀ y, floor < x.thread.frames.height → advance b x ≠ .ok none y

/-- An execution at which the machine halts comes after every other one that it reaches. -/
theorem Advances.before_halted {k k' : Nat} {x y z : Execution} (h : Advances b floor k x y)
    (hy : Halted b floor y) (h' : Advances b floor k' x z) :
    k' ≤ k ∧ Advances b floor (k - k') z y := by
  induction h generalizing k' with
  | refl x =>
    cases h' with
    | refl => exact ⟨Nat.le_refl 0, .refl _⟩
    | step hframes hstep _ => exact absurd hstep (hy _ hframes)
  | step hframes hstep hrest ih =>
    cases h' with
    | refl => exact ⟨Nat.zero_le _, .step hframes hstep hrest⟩
    | step _ hstep' hrest' =>
      cases hstep.symm.trans hstep'
      obtain ⟨hle, hafter⟩ := ih hy hrest'
      rw [← Nat.add_sub_add_right _ 1] at hafter
      exact ⟨Nat.succ_le_succ hle, hafter⟩

/-- The machine halts at one execution only. -/
theorem Advances.unique {k k' : Nat} {x y z : Execution} (h : Advances b floor k x y)
    (h' : Advances b floor k' x z) (hy : Halted b floor y) (hz : Halted b floor z) : y = z := by
  obtain ⟨hle, hafter⟩ := h.before_halted hy h'
  obtain ⟨hle', -⟩ := h'.before_halted hz h
  obtain rfl := Nat.le_antisymm hle hle'
  rw [Nat.sub_self] at hafter
  cases hafter
  rfl

/-- The machine stops with an error, after some steps. -/
def Stops (b : Bindings) (floor : Nat) (x : Execution) (P : Error → Objects → Prop) : Prop :=
  ∃ k y e z, Advances b floor k x y ∧ floor < y.thread.frames.height ∧
    advance b y = .error e z ∧ P e z.objects

theorem Stops.after {k : Nat} {x y : Execution} {P : Error → Objects → Prop}
    (h : Stops b floor y P) (hsteps : Advances b floor k x y) : Stops b floor x P := by
  obtain ⟨k', y', e, z, hrun, hframes, hstop, hP⟩ := h
  exact ⟨k' + k, y', e, z, hsteps.trans hrun, hframes, hstop, hP⟩

/-- The machine reaches the limit of the operand stack or of the call depth. -/
def Exceeds (b : Bindings) (floor : Nat) (x : Execution) : Prop :=
  Stops b floor x fun e _ => e.code = Code.stackOverflow ∨ e.code = Code.callStackExhausted

/-! ### What the outcomes mean -/

/-- The inside of a frame at a place. -/
def Place.within (p : Place) (f : Frame) (rest : Expr) : Place :=
  { p with frames := { f with rest } :: p.frames }

/-- The slots below the operands of the block. -/
def Place.base (p : Place) (σ : State) : List UInt64 :=
  p.below ++ (σ.locals.reverse ++ p.lower)

/-- The machine lands at a frame of the place, with the values that the label takes on top. -/
def Lands (b : Bindings) (floor : Nat) (T : Array Table) (Γ : Context) (p : Place) (f : Frame)
    (x : Execution) (depth : Nat) (σ : State) : Prop :=
  σ.locals.length = Γ.locals.length ∧ LinkedTo b T σ.objects ∧ ∃ label g rest junk k,
    Γ.labels[depth]? = some label ∧ label.length ≤ σ.operands.length ∧
    (f :: p.frames).drop depth = g :: rest ∧
    Advances b floor (k + 1) x (landed g σ.objects (σ.operands ++ (junk ++ p.base σ)) p.limit rest
      p.lower.length p.callDepth)

/-- What an outcome of the structured semantics means for the machine, which runs from `x` on in the
frame `f`: where the outcome is normal, `rest` remains of the frame and there are `n` operands. -/
def Simulates (b : Bindings) (floor : Nat) (T : Array Table) (Γ : Context) (p : Place) (f : Frame)
    (rest : Expr) (n least : Nat) (x : Execution) : Option Outcome → Prop
  | none => ∃ k y, least ≤ k ∧ Advances b floor k x y
  | some (.normal σ) =>
    (∃ k, Advances b floor k x ((p.within f rest).exec σ)) ∧ Fits b T Γ n σ
  | some (.branch depth σ) => Lands b floor T Γ p f x depth σ
  | some (.ret σ) => ∃ depth, (f :: p.frames).findIdx? (·.kind = .call) = some depth ∧
    Γ.labels[depth]? = some Γ.results ∧ Lands b floor T Γ p f x depth σ
  | some (.trap t o) => Stops b floor x fun e o' => e.code = t.code ∧ o' = o

variable {T : Array Table} {Γ : Context} {p : Place} {f : Frame} {rest : Expr} {n least : Nat}
  {x y : Execution}

theorem Lands.after {depth k : Nat} {σ : State} (h : Lands b floor T Γ p f y depth σ)
    (hsteps : Advances b floor k x y) : Lands b floor T Γ p f x depth σ := by
  obtain ⟨hlocals, hlinked, label, g, rest, junk, k', hlabel, hle, hdrop, hrun⟩ := h
  have hrun' := hsteps.trans hrun
  rw [Nat.add_right_comm] at hrun'
  exact ⟨hlocals, hlinked, label, g, rest, junk, k' + k, hlabel, hle, hdrop, hrun'⟩

/-- Steps before a simulation. -/
theorem Simulates.after {k : Nat} {r : Option Outcome}
    (h : Simulates b floor T Γ p f rest n least y r) (hsteps : Advances b floor k x y) :
    Simulates b floor T Γ p f rest n (least + k) x r := by
  match r, h with
  | none, ⟨k', z, hle, hrun⟩ => exact ⟨k' + k, z, by omega, hsteps.trans hrun⟩
  | some (.normal σ), ⟨⟨k', hrun⟩, hfits⟩ => exact ⟨⟨k' + k, hsteps.trans hrun⟩, hfits⟩
  | some (.branch depth σ), h => exact Lands.after h hsteps
  | some (.ret σ), ⟨depth, hindex, hresults, h⟩ =>
    exact ⟨depth, hindex, hresults, h.after hsteps⟩
  | some (.trap t o), ⟨k', z, e, w, hrun, hframes, hstop, hP⟩ =>
    exact ⟨k' + k, z, e, w, hsteps.trans hrun, hframes, hstop, hP⟩

theorem Simulates.mono {least' : Nat} {r : Option Outcome}
    (h : Simulates b floor T Γ p f rest n least x r) (hle : least' ≤ least) :
    Simulates b floor T Γ p f rest n least' x r := by
  match r, h with
  | none, ⟨k, z, hk, hrun⟩ => exact ⟨k, z, by omega, hrun⟩
  | some (.normal _), h => exact h
  | some (.branch _ _), h => exact h
  | some (.ret _), h => exact h
  | some (.trap _ _), h => exact h

/-- The machine does what an outcome means, or it reaches a limit. -/
def Tracks (b : Bindings) (floor : Nat) (T : Array Table) (Γ : Context) (p : Place) (f : Frame)
    (rest : Expr) (n least : Nat) (x : Execution) (r : Option Outcome) : Prop :=
  Exceeds b floor x ∨ Simulates b floor T Γ p f rest n least x r

theorem Tracks.after {k : Nat} {r : Option Outcome}
    (h : Tracks b floor T Γ p f rest n least y r) (hsteps : Advances b floor k x y) :
    Tracks b floor T Γ p f rest n (least + k) x r :=
  h.imp (fun h => h.after hsteps) fun h => h.after hsteps

theorem Tracks.mono {least' : Nat} {r : Option Outcome}
    (h : Tracks b floor T Γ p f rest n least x r) (hle : least' ≤ least) :
    Tracks b floor T Γ p f rest n least' x r :=
  h.imp_right fun h => h.mono hle

/-! ### Leaving a block -/

/-- The inside of a block on its parameters: the other operands of the enclosing block lie below,
and what is left of its frame is `rest`. -/
def Place.inside (p : Place) (f : Frame) (rest : Expr) (outer : List UInt64) : Place :=
  { p.within f rest with below := outer ++ p.below }

theorem base_inside (p : Place) (f : Frame) (rest : Expr) (outer : List UInt64) (σ : State) :
    (p.inside f rest outer).base σ = outer ++ p.base σ :=
  List.append_assoc ..

theorem slots_eq (p : Place) (σ : State) : p.slots σ = σ.operands ++ p.base σ :=
  rfl

/-- Leaving a frame that opened a block inside another one. -/
theorem left_inside {g : Frame} {outer : List UInt64} {σ : State} (hkind : g.kind ≠ .call)
    {above : List UInt64} (hbase : g.base = ((p.inside f rest outer).base σ).length)
    (hle : g.results ≤ above.length) :
    left g σ.objects (above ++ (p.inside f rest outer).base σ) p.limit
        (p.inside f rest outer).frames p.lower.length p.callDepth =
      (p.within f rest).exec { σ with operands := above.take g.results ++ outer } := by
  rw [left, if_neg hkind, if_neg hkind, hbase, unwound_append hle, base_inside,
    ← List.append_assoc]
  rfl

/-- At the end of its body the frame of a block is closed. -/
theorem advance_inside {g : Frame} {outer : List UInt64} {σ : State} (hkind : g.kind ≠ .call)
    (hbase : g.base = ((p.inside f rest outer).base σ).length)
    (hresults : σ.operands.length = g.results) :
    advance b (((p.inside f rest outer).within g []).exec σ) =
      .ok none ((p.within f rest).exec { σ with operands := σ.operands ++ outer }) := by
  have hleft := left_inside hkind hbase (Nat.le_of_eq hresults.symm)
  rw [List.take_of_length_le (Nat.le_of_eq hresults)] at hleft
  rw [← hleft]
  refine Activation.advance_nil rfl ?_
  rw [slots_eq, List.length_append, hresults, Nat.add_comm]
  exact Nat.add_le_add_left (Nat.le_of_eq hbase) _

theorem Lands.leave {g : Frame} {outer : List UInt64} {label : List ValueType} {depth : Nat}
    {σ : State} (h : Lands b floor T (Γ.enter label) (p.inside f rest outer) g x (depth + 1) σ) :
    Lands b floor T Γ p f x depth σ := by
  obtain ⟨hlocals, hlinked, label', g', rest', junk, k, hlabel', hle, hdrop, hrun⟩ := h
  obtain ⟨g'', hdrop', hlanded⟩ := drop_withRest (f := f) hdrop
  refine ⟨hlocals, hlinked, label', g'', rest', junk ++ outer, k, hlabel', hle, hdrop', ?_⟩
  rw [base_inside, hlanded] at hrun
  rwa [List.append_assoc]

/-- What the inside of a block does, seen from outside.  Branches to a loop are not meant: they do
not leave it. -/
theorem Simulates.leave {g : Frame} {outer : List UInt64} {label us : List ValueType}
    {r : Option Outcome}
    (h : Simulates b floor T (Γ.enter label) (p.inside f rest outer) g [] us.length least x r)
    (hkind : g.kind ≠ .call) (hresults : g.results = us.length)
    (hbase : ∀ {σ : State}, σ.locals.length = Γ.locals.length →
      g.base = ((p.inside f rest outer).base σ).length)
    (hlabel : ∀ {σ : State}, r = some (.branch 0 σ) → g.kind ≠ .loop ∧ label = us)
    (hfloor : floor ≤ p.frames.length) :
    Simulates b floor T Γ p f rest (outer.length + us.length) least x
      ((r.map (·.caught us.length)).map (·.onto outer)) := by
  match r, h with
  | none, h => exact h
  | some (.normal σ), ⟨⟨k, hrun⟩, hfits⟩ =>
    have hclose := advance_inside (b := b) hkind (hbase hfits.locals)
      (hfits.operands.trans hresults.symm)
    have hframes : floor < (((p.inside f rest outer).within g []).exec σ).thread.frames.height := by
      show floor < p.frames.length + 1 + 1
      omega
    refine ⟨⟨1 + k, hrun.trans (.single hframes hclose)⟩, ?_, hfits.locals, hfits.linked⟩
    rw [List.length_append, hfits.operands, Nat.add_comm]
  | some (.branch 0 σ), ⟨hlocals, hlinked, label', g', rest', junk, k, hlabel', hle, hdrop, hrun⟩ =>
    obtain ⟨hloop, rfl⟩ := hlabel rfl
    cases hlabel'
    cases hdrop
    have hresults' : g.results ≤ (σ.operands ++ junk).length := by
      rw [List.length_append, hresults]
      omega
    rw [landed, if_neg hloop, ← List.append_assoc] at hrun
    rw [show (p.inside f rest outer).lower = p.lower from rfl,
      show (p.inside f rest outer).limit = p.limit from rfl,
      show (p.inside f rest outer).callDepth = p.callDepth from rfl,
      left_inside hkind (hbase hlocals) hresults', hresults,
      List.take_append_of_le_length hle] at hrun
    refine ⟨⟨k + 1, hrun⟩, ?_, hlocals, hlinked⟩
    rw [List.length_append, List.length_take, Nat.min_eq_left hle, Nat.add_comm]
  | some (.branch (depth + 1) σ), h => exact Lands.leave h
  | some (.ret σ), ⟨depth, hindex, hret, h⟩ =>
    rw [List.findIdx?_cons, if_neg (by simpa using hkind)] at hindex
    obtain ⟨depth', hindex', rfl⟩ := Option.map_eq_some_iff.mp hindex
    exact ⟨depth', (findIdx?_withRest f rest p.frames).symm.trans hindex', hret, h.leave⟩
  | some (.trap t o), h => exact h

/-! ### Blocks and calls -/

/-- The machine tracks a way to run bodies, for at least as many steps. -/
def TracksBody (b : Bindings) (floor : Nat) (T : Array Table) (least : Nat)
    (run : Expr → State → Option Outcome) : Prop :=
  ∀ ⦃Γ : Context⦄ ⦃e : Expr⦄ ⦃ts us : List ValueType⦄ ⦃p : Place⦄ ⦃f : Frame⦄ ⦃room : Nat⦄
    ⦃σ : State⦄, Γ.module = b.module → SeqHasType Γ e ts us → Expr.nesting e ≤ room →
    Labelled Γ (f :: p.frames) (p.base σ).length room → floor ≤ p.frames.length →
    Fits b T Γ ts.length σ →
    Tracks b floor T Γ p f [] us.length least ((p.within f e).exec σ) (run e σ)

/-- The machine tracks a way to run loops, seen from outside of the loop. -/
def TracksLoop (b : Bindings) (floor : Nat) (T : Array Table) (least : Nat)
    (run : Nat → Expr → State → Option Outcome) :
    Prop :=
  ∀ ⦃Γ : Context⦄ ⦃ps us : List ValueType⦄ ⦃p : Place⦄ ⦃f g : Frame⦄ ⦃rest : Expr⦄
    ⦃outer : List UInt64⦄ ⦃room : Nat⦄ ⦃σ : State⦄, Γ.module = b.module →
    SeqHasType (Γ.enter ps) g.body ps us → Expr.nesting g.body ≤ room → g.kind = .loop →
    g.params = ps.length → g.results = us.length →
    g.base = ((p.inside f rest outer).base σ).length →
    Labelled (Γ.enter ps) (g :: (p.inside f rest outer).frames)
      ((p.inside f rest outer).base σ).length room →
    floor ≤ p.frames.length → Fits b T (Γ.enter ps) ps.length σ →
    Tracks b floor T Γ p f rest (outer.length + us.length) least
      (((p.inside f rest outer).within g g.body).exec σ)
      ((run ps.length g.body σ).map (·.onto outer))

variable {run : Expr → State → Option Outcome} {σ : State}

/-- The frame that a block opens at a place. -/
def Place.opened (p : Place) (σ : State) (kind : FrameKind) (sig : FuncType) (e : Expr) : Frame :=
  .enter kind e ((p.slots σ).length - sig.params.length) sig.params.length sig.results.length

theorem base_opened {sig : FuncType} {kind : FrameKind} {e : Expr} {n : Nat}
    (h : σ.operands.length = n + sig.params.length) {τ : State}
    (hτ : τ.locals.length = σ.locals.length) : (p.opened σ kind sig e).base =
      ((p.inside f rest (σ.operands.drop sig.params.length)).base τ).length := by
  show (p.slots σ).length - sig.params.length = _
  rw [base_inside, slots_eq, List.length_append, List.length_append, List.length_drop]
  simp only [Place.base, List.length_append, List.length_reverse, hτ]
  omega

/-- Entering a block on the machine: its parameters become its operands. -/
theorem enter_exec {kind : FrameKind} {type : BlockType} {sig : FuncType} {e : Expr} {n : Nat}
    (hsig : type.resolve? b.module.types = some sig)
    (h : σ.operands.length = n + sig.params.length) :
    Execution.enter b kind type e ((p.within f rest).exec σ) = .ok ()
      (((p.inside f rest (σ.operands.drop sig.params.length)).within
        (p.opened σ kind sig e) e).exec
          { σ with operands := σ.operands.take sig.params.length }) := by
  have hle : sig.params.length ≤ (p.slots σ).length := by
    rw [slots_eq, List.length_append]
    omega
  refine (Execution.enter_ofLists hsig hle).trans ?_
  have hslots : ((p.inside f rest (σ.operands.drop sig.params.length)).within
      (p.opened σ kind sig e) e).slots { σ with operands := σ.operands.take sig.params.length } =
      p.slots σ := by
    show σ.operands.take _ ++ ((σ.operands.drop _ ++ p.below) ++ _) = _
    rw [List.append_assoc, ← List.append_assoc (σ.operands.take _), List.take_append_drop]
    rfl
  rw [Place.exec, hslots]
  rfl

theorem Labelled.opened {room n : Nat} {sig : FuncType} {kind : FrameKind} {e : Expr}
    {label : List ValueType} (hlabelled : Labelled Γ (f :: p.frames) (p.base σ).length (room + 1))
    (hkind : kind ≠ .call) (hlabel : (if kind = .loop then sig.params else sig.results) = label)
    (h : σ.operands.length = n + sig.params.length) {τ : State}
    (hτ : τ.locals.length = σ.locals.length) :
    Labelled (Γ.enter label) (p.opened σ kind sig e ::
        (p.inside f rest (σ.operands.drop sig.params.length)).frames)
      ((p.inside f rest (σ.operands.drop sig.params.length)).base τ).length room := by
  refine (hlabelled.withRest rest).enter hkind ?_ (Nat.le_of_eq (base_opened h hτ)) ?_
  · rw [← hlabel]
    show (if kind = .loop then sig.params.length else sig.results.length) = _
    split <;> rfl
  · rw [base_inside, List.length_append]
    simp only [Place.base, List.length_append, List.length_reverse, hτ]
    omega

/-- A block that is no loop. -/
theorem tracks_block (f : Frame) (rest : Expr) (kind : FrameKind) {type : BlockType}
    {sig : FuncType} {e : Expr} {n room least : Nat} (hrun : TracksBody b floor T least run)
    (hmodule : Γ.module = b.module)
    (hcall : kind ≠ .call) (hloop : kind ≠ .loop)
    (hsig : type.resolve? b.module.types = some sig)
    (htyped : SeqHasType (Γ.enter sig.results) e sig.params sig.results)
    (hroom : Expr.nesting e ≤ room)
    (hlabelled : Labelled Γ (f :: p.frames) (p.base σ).length (room + 1))
    (hfloor : floor ≤ p.frames.length) (hfits : Fits b T Γ (n + sig.params.length) σ) :
    ∃ y, Execution.enter b kind type e ((p.within f rest).exec σ) = .ok () y ∧
      Tracks b floor T Γ p f rest (n + sig.results.length) least y
        (block b type (fun sig σ => (run e σ).map (.caught sig.results.length)) σ) := by
  refine ⟨_, enter_exec hsig hfits.operands, ?_⟩
  have houter : (σ.operands.drop sig.params.length).length = n := by
    rw [List.length_drop, hfits.operands, Nat.add_sub_cancel]
  have hlabelled' := @Labelled.opened Γ p f rest σ room n sig kind e sig.results hlabelled hcall
    (if_neg hloop) hfits.operands { σ with operands := σ.operands.take sig.params.length } rfl
  have hinside := @hrun (Γ.enter sig.results) e sig.params sig.results _ _ room _ hmodule htyped
    hroom hlabelled' (Nat.le_succ_of_le hfloor)
    ⟨by rw [List.length_take, hfits.operands]; omega, hfits.locals, hfits.linked⟩
  have hblock : block b type (fun sig σ => (run e σ).map (.caught sig.results.length)) σ =
      ((run e { σ with operands := σ.operands.take sig.params.length }).map
        (·.caught sig.results.length)).map (·.onto (σ.operands.drop sig.params.length)) := by
    rw [block, hsig]
  rw [hblock, ← houter]
  refine hinside.imp_right fun hinside => hinside.leave hcall rfl (fun {τ} hτ => ?_)
    (fun _ => ⟨hloop, rfl⟩) hfloor
  exact base_opened hfits.operands (hτ.trans hfits.locals.symm)

theorem tracks_loop (f : Frame) (rest : Expr) {runLoop : Nat → Expr → State → Option Outcome}
    {type : BlockType} {sig : FuncType} {e : Expr} {n room least : Nat}
    (hrun : TracksLoop b floor T least runLoop)
    (hmodule : Γ.module = b.module) (hsig : type.resolve? b.module.types = some sig)
    (htyped : SeqHasType (Γ.enter sig.params) e sig.params sig.results)
    (hroom : Expr.nesting e ≤ room)
    (hlabelled : Labelled Γ (f :: p.frames) (p.base σ).length (room + 1))
    (hfloor : floor ≤ p.frames.length) (hfits : Fits b T Γ (n + sig.params.length) σ) :
    ∃ y, Execution.enter b .loop type e ((p.within f rest).exec σ) = .ok () y ∧
      Tracks b floor T Γ p f rest (n + sig.results.length) least y
        (block b type (fun sig σ => runLoop sig.params.length e σ) σ) := by
  refine ⟨_, enter_exec hsig hfits.operands, ?_⟩
  have houter : (σ.operands.drop sig.params.length).length = n := by
    rw [List.length_drop, hfits.operands, Nat.add_sub_cancel]
  have hlabelled' := @Labelled.opened Γ p f rest σ room n sig .loop e sig.params hlabelled
    (by decide) rfl hfits.operands { σ with operands := σ.operands.take sig.params.length } rfl
  have hinside := @hrun Γ sig.params sig.results p f (p.opened σ .loop sig e) rest
    (σ.operands.drop sig.params.length) room
    { σ with operands := σ.operands.take sig.params.length } hmodule htyped hroom rfl rfl rfl
    (base_opened hfits.operands rfl) hlabelled' hfloor
    ⟨by rw [List.length_take, hfits.operands]; omega, hfits.locals, hfits.linked⟩
  have hblock : block b type (fun sig σ => runLoop sig.params.length e σ) σ =
      (runLoop sig.params.length e { σ with operands := σ.operands.take sig.params.length }).map
        (·.onto (σ.operands.drop sig.params.length)) := by
    rw [block, hsig]
  rw [hblock, ← houter]
  exact hinside

/-! ### Functions -/

/-- Leaving a function: its results are on top of what it has found. -/
theorem left_body {q : Place} {g : Frame} {τ : State} {above : List UInt64} (hbelow : q.below = [])
    (hkind : g.kind = .call) (hbase : g.base = q.lower.length) (hle : g.results ≤ above.length)
    (localBase : Nat) :
    left g τ.objects (above ++ q.base τ) q.limit q.frames localBase q.callDepth =
      ⟨τ.objects, .ofLists (above.take g.results ++ q.lower) q.limit q.frames g.savedLocalBase
        (q.callDepth - 1)⟩ := by
  have hslots : above ++ q.base τ = (above ++ τ.locals.reverse) ++ q.lower := by
    rw [Place.base, hbelow, List.nil_append, List.append_assoc]
  rw [left, if_pos hkind, if_pos hkind, hbase, hslots, unwound_append (by
    rw [List.length_append]
    omega), List.take_append_of_le_length hle]

/-- What the end of a function means for the machine, which runs from `x` on in the frame `g` of the
call: the frame is closed and the results are on top, the machine has stopped with the code of the
trap, or, if the fuel did not suffice, it has taken at least as many steps. -/
def Finishes (b : Bindings) (floor : Nat) (T : Array Table) (q : Place) (g : Frame) (least : Nat)
    (x : Execution) : Option Result → Prop
  | none => ∃ k y, least ≤ k ∧ Advances b floor k x y
  | some (.ok slots, o) => slots.length = g.results ∧ LinkedTo b T o ∧
    ∃ k, Advances b floor k x ⟨o, .ofLists (slots ++ q.lower) q.limit q.frames g.savedLocalBase
      (q.callDepth - 1)⟩
  | some (.error t, o) => Stops b floor x fun e o' => e.code = t.code ∧ o' = o

/-- What the body of a function does, seen from outside. -/
theorem Simulates.finishes {q : Place} {g : Frame} {locals results : List ValueType}
    {r : Option Outcome} {m : Module}
    (h : Simulates b floor T (.ofBody m locals results) q g [] results.length least x r)
    (hbelow : q.below = []) (hkind : g.kind = .call) (hresults : g.results = results.length)
    (hbase : g.base = q.lower.length) (hfloor : floor ≤ q.frames.length) :
    Finishes b floor T q g least x (r.map (·.result results.length)) := by
  -- A return and a branch out of the body both land at the frame of the call.
  have hreturn {τ : State} (h : Lands b floor T (.ofBody m locals results) q g x 0 τ) :
      Finishes b floor T q g least x (some (.ok (τ.operands.take results.length), τ.objects)) := by
    obtain ⟨-, hlinked, label, g', rest', junk, k, hlabel, hle, hdrop, hrun⟩ := h
    cases hdrop
    obtain rfl : results = label := Option.some.inj hlabel
    have hle' : g.results ≤ (τ.operands ++ junk).length := by
      rw [List.length_append, hresults]
      omega
    rw [landed, if_neg (by simp [hkind]), ← List.append_assoc,
      left_body hbelow hkind hbase hle', hresults, List.take_append_of_le_length hle] at hrun
    exact ⟨by rw [List.length_take, hresults, Nat.min_eq_left hle], hlinked, k + 1, hrun⟩
  match r, h with
  | none, h => exact h
  | some (.normal τ), ⟨⟨k, hrun⟩, hfits⟩ =>
    have hle : g.results ≤ τ.operands.length :=
      Nat.le_of_eq (hresults.trans hfits.operands.symm)
    have hframes : floor < ((q.within g []).exec τ).thread.frames.height := Nat.lt_succ_of_le hfloor
    have hclose : advance b ((q.within g []).exec τ) = .ok none ⟨τ.objects, .ofLists
        (τ.operands.take results.length ++ q.lower) q.limit q.frames g.savedLocalBase
        (q.callDepth - 1)⟩ := by
      rw [← hresults, ← left_body hbelow hkind hbase hle]
      refine Activation.advance_nil rfl ?_
      rw [slots_eq, List.length_append]
      show g.base + g.results ≤ _
      rw [hbase]
      simp only [Place.within, Place.base, List.length_append]
      omega
    refine ⟨?_, hfits.linked, 1 + k, hrun.trans (.single hframes hclose)⟩
    rw [List.length_take, hfits.operands, Nat.min_self, hresults]
  | some (.branch 0 τ), h => exact hreturn h
  | some (.branch (depth + 1) τ), ⟨_, _, _, _, _, _, _, hlabel, _⟩ => cases hlabel
  | some (.ret τ), ⟨depth, hindex, _, h⟩ =>
    rw [List.findIdx?_cons, if_pos (by simpa using hkind)] at hindex
    obtain rfl := Option.some.inj hindex
    exact hreturn h
  | some (.trap t o), h => exact h

/-- The machine tracks a function of the instance from its first instruction on: its arguments are
on top of what it has found, and its other locals are zero. -/
theorem tracks_function {index : UInt32} {sig : FuncType} {localCount : Nat} {e : Expr}
    {args : List UInt64} {o : Objects} (q : Place) (hrun : TracksBody b floor T least run)
    (hwired : Wired b) (hf : b.func index = .ok (.defined sig localCount e))
    (hargs : args.length = sig.params.length) (hlinked : LinkedTo b T o) (hbelow : q.below = [])
    (hfloor : floor ≤ q.frames.length) (savedLocalBase : Nat) :
    Exceeds b floor ⟨o, .ofLists (List.replicate localCount 0 ++ (args.reverse ++ q.lower)) q.limit
        (Execution.callFrame sig e q.lower.length savedLocalBase :: q.frames) q.lower.length
        q.callDepth⟩ ∨
      Finishes b floor T q (Execution.callFrame sig e q.lower.length savedLocalBase) least
        ⟨o, .ofLists (List.replicate localCount 0 ++ (args.reverse ++ q.lower)) q.limit
          (Execution.callFrame sig e q.lower.length savedLocalBase :: q.frames) q.lower.length
          q.callDepth⟩ (function run (.defined sig localCount e) args o) := by
  obtain ⟨declared, hdeclared, htyped, hnesting⟩ := hwired.body hf
  generalize hg : Execution.callFrame sig e q.lower.length savedLocalBase = g
  have hbase : g.base = q.lower.length := by rw [← hg]; rfl
  let τ : State := ⟨[], args ++ List.replicate localCount 0, o⟩
  have hstart : (q.within g e).exec τ = ⟨o, .ofLists
      (List.replicate localCount 0 ++ (args.reverse ++ q.lower)) q.limit (g :: q.frames)
      q.lower.length q.callDepth⟩ := by
    have hslots : (q.within g e).slots τ =
        List.replicate localCount 0 ++ (args.reverse ++ q.lower) := by
      show [] ++ (q.below ++ ((args ++ List.replicate localCount 0).reverse ++ q.lower)) = _
      rw [hbelow, List.reverse_append, List.reverse_replicate, List.append_assoc]
      rfl
    rw [Place.exec, hslots, ← hg]
    rfl
  have hfits : Fits b T (.ofBody b.module (sig.params ++ declared) sig.results) 0 τ := by
    refine ⟨rfl, ?_, hlinked⟩
    show (args ++ List.replicate localCount 0).length = (sig.params ++ declared).length
    rw [List.length_append, List.length_append, List.length_replicate, hdeclared, hargs]
  have hlabelled : Labelled (.ofBody b.module (sig.params ++ declared) sig.results) (g :: q.frames)
      (q.base τ).length (Expr.nesting e) := by
    refine .ofBody (by rw [← hg]; rfl) (by rw [← hg]; rfl) ?_ hnesting
    rw [hbase]
    simp only [Place.base, List.length_append]
    omega
  have hbody := @hrun (.ofBody b.module (sig.params ++ declared) sig.results) e [] sig.results q g _
    τ rfl htyped (Nat.le_refl _) hlabelled hfloor hfits
  rw [hstart] at hbody
  exact hbody.imp_right fun h =>
    h.finishes hbelow (by rw [← hg]; rfl) (by rw [← hg]; rfl) hbase hfloor

/-- The inside of a called function: it has its own locals, and all slots of the caller but the
arguments lie below them. -/
def Place.called (p : Place) (f : Frame) (rest : Expr) (σ : State) (params : Nat) : Place :=
  ⟨[], σ.operands.drop params ++ p.base σ, p.limit, { f with rest } :: p.frames, p.callDepth + 1⟩

/-- What a call leaves with its caller. -/
def returned (σ : State) (params : Nat) : Result → Outcome
  | (.ok results, o) => .normal ⟨results ++ σ.operands.drop params, σ.locals, o⟩
  | (.error t, o) => .trap t o

/-- What a called function does, seen by its caller. -/
theorem Finishes.returned {g : Frame} {params : Nat} {r : Option Result}
    (h : Finishes b floor T (p.called f rest σ params) g least x r)
    (hsaved : g.savedLocalBase = p.lower.length) (hlocals : σ.locals.length = Γ.locals.length) :
    Simulates b floor T Γ p f rest ((σ.operands.drop params).length + g.results) least x
      (r.map (Structured.returned σ params)) := by
  match r, h with
  | none, h => exact h
  | some (.ok slots, o), ⟨hlength, hlinked, k, hrun⟩ =>
    refine ⟨⟨k, ?_⟩, ?_, hlocals, hlinked⟩
    · have hplace : (p.within f rest).exec ⟨slots ++ σ.operands.drop params, σ.locals, o⟩ =
          ⟨o, .ofLists (slots ++ (p.called f rest σ params).lower) p.limit
            ({ f with rest } :: p.frames) p.lower.length p.callDepth⟩ := by
        show Execution.mk _ (.ofLists ((slots ++ σ.operands.drop params) ++ _) _ _ _ _) = _
        rw [List.append_assoc]
        rfl
      rw [hplace, ← hsaved]
      exact hrun
    · rw [List.length_append, hlength, Nat.add_comm]
  | some (.error t, o), h => exact h

/-- A call of a function that the instance defines. -/
theorem tracks_call (f : Frame) (rest : Expr) {index : UInt32} {sig : FuncType} {localCount : Nat}
    {e : Expr} {n least : Nat} (hrun : TracksBody b floor T least run) (hwired : Wired b)
    (hf : b.func index = .ok (.defined sig localCount e)) (hfloor : floor ≤ p.frames.length)
    (hfits : Fits b T Γ (n + sig.params.length) σ) :
    (∃ t : Trap, (t = .callStackExhausted p.callDepth ∨ t = .stackOverflow) ∧
      Execution.call b index ((p.within f rest).exec σ) =
        .error t.error ((p.within f rest).exec σ)) ∨
    ∃ y, Execution.call b index ((p.within f rest).exec σ) = .ok none y ∧
      Tracks b floor T Γ p f rest (n + sig.results.length) least y (call b run index σ) := by
  have houter : (σ.operands.drop sig.params.length).length = n := by
    rw [List.length_drop, hfits.operands, Nat.add_sub_cancel]
  let args := (σ.operands.take sig.params.length).reverse
  let q := p.called f rest σ sig.params.length
  have hargs : args.length = sig.params.length := by
    rw [List.length_reverse, List.length_take, hfits.operands, Nat.min_eq_left (by omega)]
  have hslots : p.slots σ = args.reverse ++ q.lower := by
    show p.slots σ = (σ.operands.take _).reverse.reverse ++ (σ.operands.drop _ ++ p.base σ)
    rw [List.reverse_reverse, ← List.append_assoc, List.take_append_drop, slots_eq]
  have hlength : (p.slots σ).length = sig.params.length + q.lower.length := by
    rw [hslots, List.length_append, List.length_reverse, hargs]
  refine (Execution.call_defined hf (show sig.params.length ≤ (p.slots σ).length by omega)).imp_right
    fun hcall => ⟨_, hcall, ?_⟩
  have hgoes := tracks_function q hrun hwired hf hargs hfits.linked rfl
    (Nat.le_succ_of_le hfloor) p.lower.length
  have hcalled : call b run index σ = (function run (.defined sig localCount e) args
      σ.objects).map (returned σ sig.params.length) := by
    unfold call
    rw [hf]
    rfl
  rw [show (p.slots σ).length - sig.params.length = q.lower.length by omega, hslots, hcalled,
    ← houter]
  exact hgoes.imp_right fun h => h.returned rfl hfits.locals

end Wasm.Structured
