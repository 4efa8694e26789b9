import Wasm.Proofs.Safety.Quiescence
import Wasm.Proofs.Safety.Soundness

/-!
# Coherence of threads

Next to its frames a thread keeps where the running call has its locals and how many calls are
active, and the frame of a call keeps where the caller has its locals.  In every state of every
thread these agree with the frames (`Thread.Coherent`), although a branch takes frames away without
looking at what they are: a typed branch never passes the frame of the running call
(`Runs.take_ne_call`).
-/

namespace Wasm

/-- Where the locals of the topmost call begin. -/
def topBase : List Frame → Nat
  | [] => 0
  | f :: below => if f.kind = .call then f.base else topBase below

/-- The frames of a thread agree with what is kept about their calls. -/
structure Coherent (frames : List Frame) (localBase callDepth : Nat) : Prop where
  callDepth : callDepth = frames.countP (·.kind = .call)
  localBase : localBase = topBase frames
  saved : ∀ {f : Frame} {below : List Frame}, f :: below <:+ frames → f.kind = .call →
    f.savedLocalBase = topBase below
  sorted : frames.Pairwise fun f g => g.base ≤ f.base

/-- A thread whose frames agree with what is kept about them; the top frame does not begin above the
top of the operand stack. -/
structure Thread.Coherent (t : Thread) : Prop
    extends Wasm.Coherent t.frames.items t.localBase t.callDepth where
  height : ∀ f ∈ t.frames.items.head?, f.base ≤ t.operands.height

theorem Thread.coherent_idle (config : Config) : (Thread.idle config).Coherent :=
  ⟨⟨rfl, rfl, fun h => (nomatch List.suffix_nil.mp h), .nil⟩, fun _ h => nomatch h⟩

/-! ### Frames -/

section Frames

variable {frames : List Frame} {f g : Frame} {localBase callDepth : Nat}

theorem pairwise_cons_of_head (h : frames.Pairwise fun f g => g.base ≤ f.base)
    (hhead : ∀ g ∈ frames.head?, g.base ≤ f.base) :
    (f :: frames).Pairwise fun f g => g.base ≤ f.base := by
  refine List.pairwise_cons.mpr ⟨fun g hg => ?_, h⟩
  cases frames with
  | nil => cases hg
  | cons f' below =>
    have hf' := hhead f' rfl
    rcases List.mem_cons.mp hg with rfl | hg
    · exact hf'
    · exact Nat.le_trans (List.rel_of_pairwise_cons h hg) hf'

/-- A block, a loop or an arm. -/
theorem Coherent.cons_block (h : Coherent frames localBase callDepth) (hkind : f.kind ≠ .call)
    (hhead : ∀ g ∈ frames.head?, g.base ≤ f.base) : Coherent (f :: frames) localBase callDepth := by
  refine ⟨?_, ?_, fun {g below} hsuffix hg => ?_, pairwise_cons_of_head h.sorted hhead⟩
  · rw [List.countP_cons_of_neg (by simpa using hkind)]
    exact h.callDepth
  · rw [topBase, if_neg hkind]
    exact h.localBase
  · rcases List.suffix_cons_iff.mp hsuffix with heq | hsuffix
    · cases heq
      exact absurd hg hkind
    · exact h.saved hsuffix hg

/-- The frame of a call. -/
theorem Coherent.cons_call (h : Coherent frames f.savedLocalBase callDepth) (hkind : f.kind = .call)
    (hhead : ∀ g ∈ frames.head?, g.base ≤ f.base) :
    Coherent (f :: frames) f.base (callDepth + 1) := by
  refine ⟨?_, ?_, fun {g below} hsuffix hg => ?_, pairwise_cons_of_head h.sorted hhead⟩
  · rw [List.countP_cons_of_pos (by simpa using hkind), ← h.callDepth]
  · rw [topBase, if_pos hkind]
  · rcases List.suffix_cons_iff.mp hsuffix with heq | hsuffix
    · cases heq
      exact h.localBase
    · exact h.saved hsuffix hg

end Frames

/-- A block begins no lower than the frame that it stands on. -/
theorem Labelled.head_le {Γ : Typing.Context} {frames : List Frame} {f : Frame}
    {label : List ValueType} {top room : Nat}
    (h : Labelled (Γ.enter label) (f :: frames) top room) (hkind : f.kind ≠ .call) :
    ∀ g ∈ frames.head?, g.base ≤ top := by
  obtain ⟨depth, hindex, hresults, -⟩ := h.call
  -- The frame of the call is further out, so the frame next to this one has a label as well.
  have hlabel : ∃ label', (Γ.enter label).labels[1]? = some label' := by
    cases depth with
    | zero =>
      rw [List.findIdx?_cons, if_neg (by simpa using hkind)] at hindex
      cases hi : frames.findIdx? (·.kind = .call) with
      | none =>
        rw [hi] at hindex
        cases hindex
      | some k =>
        rw [hi] at hindex
        cases hindex
    | succ depth =>
      obtain ⟨hlt, -⟩ := List.getElem?_eq_some_iff.mp hresults
      exact ⟨_, List.getElem?_eq_getElem (by omega)⟩
  obtain ⟨label', hlabel'⟩ := hlabel
  obtain ⟨g', rest, hdrop, -, hbase⟩ := h.frame hlabel'
  intro g hg
  cases frames with
  | nil => cases hg
  | cons =>
    cases hdrop
    cases hg
    exact hbase

/-! ### Branches -/

/-- The opcodes that branch. -/
def Opcode.isBranch : Opcode → Bool
  | .br | .brIf | .brTable | .ret => true
  | _ => false

theorem Opcode.signature?_of_isBranch {op : Opcode} (h : op.isBranch = true) :
    op.signature? = none := by
  unfold isBranch at h
  split at h <;> first | rfl | cases h

/-- The frames after a branch that closes or restarts the given one: those that it has passed were
frames of blocks, and a return closes the frame of its call. -/
inductive Lands (op : Opcode) (frames : List Frame) : List Frame → Prop where
  | close {depth : Nat} {g : Frame} {outer : List Frame} (hdrop : frames.drop depth = g :: outer)
      (hpassed : ∀ f ∈ frames.take depth, f.kind ≠ .call) (hkind : g.kind ≠ .loop)
      (hret : op = .ret → g.kind = .call) : Lands op frames outer
  | restart {depth : Nat} {g : Frame} {outer : List Frame} (hdrop : frames.drop depth = g :: outer)
      (hpassed : ∀ f ∈ frames.take depth, f.kind ≠ .call) (hkind : g.kind = .loop)
      (hret : op ≠ .ret) : Lands op frames (g.restart :: outer)

namespace Safety

open Typing (Context HasType SeqHasType)
open Execution (landed)

variable {m : Module} {e t : Thread} {final types lower : List ValueType}
  {localBase callDepth limit : Nat} {Γ : Context} {Γ? : Option Context} {f g : Frame}
  {frames below : List Frame} {slots : List UInt64} {o : Objects} {b : Bindings}

/-! ### Typed frames -/

/-- What an activation adds to a coherent thread is coherent. -/
theorem Runs.coherent (h : Runs m e final Γ? frames types localBase callDepth)
    (he : e.Coherent) : Coherent frames localBase callDepth := by
  induction h with
  | done => exact he.toCoherent
  | block _ hkind _ _ _ htyped _ ih => exact ih.cons_block hkind (htyped.labelled.head_le hkind)
  | @call Γ? _ _ _ _ _ _ _ _ hbelow hkind hbase hbegins _ ih =>
    refine ih.cons_call hkind fun g hg => ?_
    cases Γ? with
    | none =>
      obtain ⟨hframes, -⟩ := hbelow.closed
      rw [hframes] at hg
      rw [hbase]
      exact Nat.le_add_right_of_le (he.height g hg)
    | some Γ => exact hbegins g hg nofun

theorem Steady.coherent {pending : List ValueType} (h : Steady m e final pending t)
    (he : e.Coherent) : t.Coherent := by
  obtain ⟨habove, Γ?, types, hbegins, hruns, -⟩ := h
  refine ⟨hruns.coherent he, fun f hf => ?_⟩
  cases Γ? with
  | none =>
    obtain ⟨hframes, -⟩ := hruns.closed
    rw [hframes] at hf
    refine Nat.le_trans (he.height f hf) ?_
    have hle := habove.slots.length_le
    rwa [← e.operands.slots.height_eq, ← t.operands.slots.height_eq] at hle
  | some Γ => exact hbegins f hf nofun

theorem Regular.coherent {machine : Machine} {a : Address} {i : Instance} (h : Regular machine)
    (hi : machine.store.instance? a = some i) : i.thread.Coherent :=
  h.thread (P := fun _ t => t.Coherent) Steady.coherent (fun _ => Thread.coherent_idle) hi

/-! ### Typed branches -/

/-- What a typed branch passes are blocks. -/
theorem Runs.take_ne_call {depth : Nat} {label : List ValueType}
    (h : Runs m e final (some Γ) frames types localBase callDepth)
    (hlabel : Γ.labels[depth]? = some label) : ∀ f ∈ frames.take depth, f.kind ≠ .call := by
  induction depth generalizing Γ frames types with
  | zero => exact fun f hf => nomatch hf
  | succ depth ih =>
    cases h with
    | block hbelow hkind =>
      intro f hf
      rcases List.mem_cons.mp hf with rfl | hf
      · exact hkind
      · exact ih hbelow hlabel f hf
    | call => cases hlabel

theorem lands_landed {op : Opcode} {depth : Nat} {outer : List Frame}
    (hdrop : frames.drop depth = g :: outer) (hpassed : ∀ f ∈ frames.take depth, f.kind ≠ .call)
    (hret : op = .ret → g.kind = .call) :
    Lands op frames
      (landed g o slots limit outer localBase callDepth).thread.frames.items := by
  by_cases hkind : g.kind = .loop
  · rw [landed, if_pos hkind]
    exact .restart hdrop hpassed hkind fun hop => by cases hkind.symm.trans (hret hop)
  · rw [landed, if_neg hkind]
    exact .close hdrop hpassed hkind hret

theorem lands_branch (op : Opcode) (o : Objects) (limit : Nat) {depth : UInt32}
    {label : List ValueType} {floor room : Nat} (hop : op ≠ .ret)
    (h : Runs m e final (some Γ) frames types localBase callDepth)
    (hlabelled : Labelled Γ frames floor room) (hlabel : Γ.labels[depth.toNat]? = some label)
    (hfloor : floor ≤ e.operands.height + lower.length)
    (hslots : Shows e (lower ++ label) slots) :
    ∃ x, (do
      Execution.branch depth
      return (none : Option Call)) ⟨o, .ofLists slots limit frames localBase callDepth⟩ =
        .ok none x ∧ Lands op frames x.thread.frames.items := by
  have hlength := hslots.length_eq
  rw [List.length_append] at hlength
  have hle : floor + label.length ≤ slots.length := by omega
  obtain ⟨g, outer, hdrop, hrun⟩ := hlabelled.branch o limit localBase callDepth hlabel hle
  exact ⟨_, Execution.bind_ok hrun, lands_landed hdrop (h.take_ne_call hlabel) fun h => absurd h hop⟩

theorem lands_ret (op : Opcode) (o : Objects) (limit : Nat) {floor room : Nat}
    (h : Runs m e final (some Γ) frames types localBase callDepth)
    (hlabelled : Labelled Γ frames floor room)
    (hfloor : floor ≤ e.operands.height + lower.length)
    (hslots : Shows e (lower ++ Γ.results) slots) :
    ∃ x, (do
      Execution.ret
      return (none : Option Call)) ⟨o, .ofLists slots limit frames localBase callDepth⟩ =
        .ok none x ∧ Lands op frames x.thread.frames.items := by
  have hlength := hslots.length_eq
  rw [List.length_append] at hlength
  have hle : floor + Γ.results.length ≤ slots.length := by omega
  obtain ⟨depth, g, outer, hindex, hresults, hdrop, hrun⟩ :=
    hlabelled.ret o limit localBase callDepth hle
  refine ⟨_, Execution.bind_ok hrun, lands_landed hdrop (h.take_ne_call hresults) fun _ => ?_⟩
  obtain ⟨hlt, hkind, -⟩ := List.findIdx?_eq_some_iff_getElem.mp hindex
  rw [List.drop_eq_getElem_cons hlt] at hdrop
  cases hdrop
  simpa using hkind

/-- A typed branch does not fail: it lands, or it is not taken. -/
theorem lands_execute {floor room : Nat} {i : Instr} {rest : Expr} {ps rs : List ValueType}
    (o : Objects) (limit : Nat)
    (hruns : Runs m e final (some Γ) ({ f with rest } :: below) types localBase callDepth)
    (hlabelled : Labelled Γ ({ f with rest } :: below) floor room)
    (hfloor : floor ≤ e.operands.height + lower.length) (htyped : HasType Γ i ps rs)
    (hslots : Shows e (lower ++ ps) slots) (hbranch : i.opcode.isBranch = true) :
    ∃ x, Execution.execute b i
        ⟨o, .ofLists slots limit ({ f with rest } :: below) localBase callDepth⟩ = .ok none x ∧
      (i.opcode = .brIf ∧ x.thread.frames.items = { f with rest } :: below ∨
        Lands i.opcode ({ f with rest } :: below) x.thread.frames.items) := by
  have hfloor' (ts : List ValueType) : floor ≤ e.operands.height + (lower ++ ts).length := by
    rw [List.length_append]
    omega
  cases htyped with
  | @br _ depth label ts us hlabel =>
    rw [← List.append_assoc] at hslots
    obtain ⟨x, hx, hlands⟩ := lands_branch .br o limit nofun hruns
      hlabelled hlabel (hfloor' ts) hslots
    exact ⟨x, hx, .inr hlands⟩
  | @brIf _ depth label hlabel =>
    rw [← List.append_assoc] at hslots
    obtain ⟨slot, slots', rfl, hslots'⟩ := hslots.exists_cons
    by_cases hcondition : slot.toUInt32 ≠ 0
    · obtain ⟨x, hx, hlands⟩ := lands_branch .brIf o limit nofun hruns
        hlabelled hlabel hfloor hslots'
      refine ⟨x, (Execution.bind_ok (Execution.popU32_ofLists slot)).trans ?_, .inr hlands⟩
      rw [if_pos hcondition]
      exact hx
    · refine ⟨⟨o, .ofLists slots' limit ({ f with rest } :: below) localBase callDepth⟩,
        (Execution.bind_ok (Execution.popU32_ofLists slot)).trans ?_, .inl ⟨rfl, rfl⟩⟩
      rw [if_neg hcondition]
      rfl
  | @brTable _ table default label ts us hdefault htable =>
    rw [← List.append_assoc, ← List.append_assoc] at hslots
    obtain ⟨slot, slots', rfl, hslots'⟩ := hslots.exists_cons
    have hlabel : Γ.labels[(table[slot.toUInt32.toNat]?.getD default).toNat]? = some label := by
      cases hentry : table[slot.toUInt32.toNat]? with
      | none => exact hdefault
      | some depth => exact htable depth (List.mem_of_getElem? hentry)
    obtain ⟨x, hx, hlands⟩ := lands_branch .brTable o limit nofun hruns
      hlabelled hlabel (hfloor' ts) hslots'
    exact ⟨x, (Execution.bind_ok (Execution.popU32_ofLists slot)).trans hx, .inr hlands⟩
  | @ret _ ts us =>
    rw [← List.append_assoc] at hslots
    obtain ⟨x, hx, hlands⟩ := lands_ret .ret o limit hruns hlabelled
      (hfloor' ts) hslots
    exact ⟨x, hx, .inr hlands⟩
  | access _ hsig => cases (Opcode.signature?_of_isBranch hbranch).symm.trans hsig
  | operator _ hsig => cases (Opcode.signature?_of_isBranch hbranch).symm.trans hsig
  | _ => cases hbranch

/-- A branch of an activation that has frames of its own. -/
theorem lands_advance {i : Instr} {rest : Expr} (h : Steady b.module e final [] t)
    (hopen : e.frames.height < t.frames.height) (hframes : t.frames.items = f :: below)
    (hrest : f.rest = i :: rest) (hbranch : i.opcode.isBranch = true) :
    ∃ x, Activation.advance b ⟨o, t⟩ = .ok none x ∧
      (i.opcode = .brIf ∧ x.thread.frames.items = { f with rest } :: below ∨
        Lands i.opcode ({ f with rest } :: below) x.thread.frames.items) := by
  obtain ⟨-, Γ?, types, -, hruns, hslots⟩ := h
  rw [List.append_nil] at hruns
  cases Γ? with
  | none =>
    obtain ⟨hentry, -⟩ := hruns.closed
    rw [e.frames.height_eq, t.frames.height_eq, hentry] at hopen
    exact absurd hopen (Nat.lt_irrefl _)
  | some Γ =>
    obtain ⟨f', below', low, lower, start, ts, us, room, hf, rfl, hfront, htyped⟩ := hruns.front
    cases hframes.symm.trans hf
    obtain ⟨ws, ps, rs, rfl, hfirst, -, hnext⟩ := htyped.next hrest
    have hfloor : e.operands.height + lower.length ≤ e.operands.height + (lower ++ ws).length := by
      rw [List.length_append]
      omega
    rw [← List.append_assoc] at hslots
    obtain ⟨x, hx, hlands⟩ := lands_execute o t.operands.limit (hfront.runs hnext) hnext.labelled
      hfloor hfirst hslots hbranch
    refine ⟨x, ?_, hlands⟩
    rw [t.eq_ofLists, hf, Activation.advance_cons hrest, hx]
    rfl

/-! ### Reachable machines -/

/-- In every state that can be reached, whatever runs in whatever depth of calls, the thread of each
instance is coherent and within its limits; and no branch fails or discards the frame of a call
other than the one that it closes. -/
theorem control_coherent {known : List FuncRef} {machine : Machine}
    (h : Reachable known machine) :
    (∀ {a : Address} {i : Instance}, machine.store.instance? a = some i →
      i.thread.Coherent ∧ i.thread.InBounds i.bindings.config) ∧
    ∀ {act : Activation} {i : Instance} {f : Frame} {below : List Frame} {instr : Instr}
      {rest : Expr}, machine.focus = .wasm act → act.isFinished machine.store = false →
      machine.store.instance? act.self = some i → i.thread.frames.items = f :: below →
      f.rest = instr :: rest → instr.opcode.isBranch = true →
      ∃ i', machine.step.focus = .wasm act ∧ machine.step.waiting = machine.waiting ∧
        machine.step.store.instance? act.self = some i' ∧
        (instr.opcode = .brIf ∧ i'.thread.frames.items = { f with rest } :: below ∨
          Lands instr.opcode ({ f with rest } :: below) i'.thread.frames.items) := by
  have hregular := h.regular
  refine ⟨fun hi => ⟨hregular.coherent hi, hregular.limited.threads hi⟩, ?_⟩
  obtain ⟨s, focus, waiting⟩ := machine
  intro act i f below instr rest hfocus hfinished hi hframes hrest hbranch
  replace hfocus : focus = .wasm act := hfocus
  subst hfocus
  obtain ⟨⟨outer, ⟨-, hact, -⟩, -⟩, -, -⟩ := hregular
  obtain ⟨b, t, hb, ht, hsteady⟩ := hact
  obtain ⟨i', hi', rfl, ht'⟩ := exists_instance hb
  cases hi.symm.trans hi'
  cases ht'.symm.trans ht
  have hopen : act.entry.frames.height < i.thread.frames.height := by
    rw [Activation.isFinished, hi] at hfinished
    exact Nat.lt_of_not_le (of_decide_eq_false hfinished)
  obtain ⟨x, hx, hlands⟩ := lands_advance (o := s.objects) hsteady hopen hframes hrest hbranch
  have hstep : Machine.step ⟨s, .wasm act, waiting⟩ =
      ⟨settled s act.self i x, .wasm act, waiting⟩ := by
    show Machine.stepWasm s act waiting = _
    unfold Machine.stepWasm
    rw [if_neg (by rw [hfinished]; exact Bool.false_ne_true), run_eq hi, hx]
  refine ⟨{ i with thread := x.thread }, ?_, ?_, ?_, hlands⟩
  · rw [hstep]
  · rw [hstep]
  · rw [hstep, instance?_settled hi, if_pos rfl]

/-- The branch out of the block, in the call of the function that returns 7. -/
theorem seven_branch_lands : ∃ i, (sevenAfter 2).store.instance? 0 = some i ∧
    i.thread.Coherent ∧ i.thread.callDepth = 1 ∧
    ∃ i', (sevenAfter 3).store.instance? 0 = some i' ∧
      Lands .br (i.thread.frames.items.modifyHead fun f => { f with rest := [] })
        i'.thread.frames.items := by
  have hreached (n : Nat) : Reachable [] (sevenAfter n) := by
    induction n with
    | zero => exact .call reachable_seven (.index (a := 0) rfl rfl [])
    | succ n ih => exact .step ih
  obtain ⟨hthreads, hbranches⟩ := control_coherent (hreached 2)
  obtain ⟨i', -, -, hi', ⟨hop, -⟩ | hlands⟩ :=
    @hbranches ⟨0, [.i32], .idle {}, true⟩ _ _ _ _ _ rfl rfl rfl rfl rfl rfl
  · cases hop
  · exact ⟨_, rfl, (hthreads (a := 0) rfl).1, rfl, i', hi', hlands⟩

end Safety

end Wasm
