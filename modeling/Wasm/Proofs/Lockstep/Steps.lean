import Wasm.Proofs.Lockstep.Parts

/-!
# Activations in step

The parts of an activation keep in step because their instructions do.  One thing is left: at a
transfer of control, what follows may be cut off on one side only, and then the top frames are
loose. But no transfer leads to what follows it (`yields_transfer`), so they are so no more when it
is done (`abreast_advance`).
-/

namespace Wasm

namespace Execution

/-! ### Transfers of control -/

/-- Where a transfer of control leads: to at most `n` frames, and if there are as many, the top one
starts over. -/
structure Landed (n : Nat) (y : Execution) : Prop where
  height : y.thread.frames.items.length ≤ n
  start : ∀ {f : Frame} {below : List Frame}, y.thread.frames.items = f :: below →
    n ≤ y.thread.frames.items.length → f.rest = f.body

section

variable {b : Bindings} {x : Execution} {n : Nat} {f : Frame} {below : List Frame}

theorem yields_setFrames (frames : Stack Frame) :
    Yields (fun _ y => y.thread.frames = frames) (setFrames frames) x := by
  refine ⟨fun hrun => ?_⟩
  cases hrun
  rfl

theorem yields_pop : Yields (fun _ y => y.thread.frames = x.thread.frames) pop x := by
  refine yields_get (yields_found fun {p} _ => ?_)
  obtain ⟨slot, rest⟩ := p
  refine Yields.bind (P := fun _ y => y.thread.frames = x.thread.frames) ⟨fun hrun => ?_⟩
    fun _ y hy => yields_pure hy
  cases hrun
  rfl

theorem yields_exitFrame (hitems : x.thread.frames.items = f :: below) :
    Yields (fun _ y => y.thread.frames.items = below) exitFrame x := by
  refine yields_get ?_
  have hpop : x.thread.frames.pop? = some (f, .ofList below) :=
    Stack.pop?_eq_some_iff.mpr hitems
  rw [hpop]
  refine yields_bind fun s _ => yields_bind fun _ _ => yields_bind fun _ y₁ =>
    (yields_setFrames (.ofList below)).bind fun _ y hy => ?_
  split
  · refine ⟨fun hrun => ?_⟩
    cases hrun
    show y.thread.frames.items = below
    rw [hy]
    rfl
  · exact yields_pure (by rw [hy]; rfl)

/-- A branch starts a loop over, or closes the frame. -/
theorem yields_branch (depth : UInt32) (hn : x.thread.frames.items.length ≤ n) :
    Yields (fun _ y => Landed n y) (branch depth) x := by
  refine yields_get ?_
  dsimp only
  split
  · exact yields_throw _
  · refine (yields_setFrames (x.thread.frames.drop depth.toNat)).bind fun _ y hy => ?_
    have hlength : (x.thread.frames.drop depth.toNat).items.length ≤ n := by
      rw [Stack.items_drop, List.length_drop]
      omega
    revert hy hlength
    generalize x.thread.frames.drop depth.toNat = frames
    intro hy hlength
    cases hitems : frames.items with
    | nil => exact yields_throw _
    | cons f below =>
      rw [hitems, List.length_cons] at hlength
      dsimp only
      split
      · refine yields_bind fun s _ => yields_bind fun _ _ => yields_bind fun _ y₁ =>
          ⟨fun hrun => ?_⟩
        have hframes := (yields_setFrames (frames.setTop f.restart)).of_run hrun
        have hitems' := Stack.items_setTop (b := f.restart) hitems
        refine ⟨?_, fun heq _ => ?_⟩
        · rw [hframes, hitems']
          exact hlength
        · rw [hframes, hitems'] at heq
          cases heq
          rfl
      · refine ⟨fun hrun => ?_⟩
        have hbelow := (yields_exitFrame (by rw [hy]; exact hitems)).of_run hrun
        refine ⟨?_, fun _ hle => ?_⟩
        · rw [hbelow]
          omega
        · rw [hbelow] at hle
          omega

/-- No transfer of control leads behind itself. -/
theorem yields_transfer {i : Instr} (hi : i.Transfers) (hn : x.thread.frames.items.length ≤ n) :
    Yields (fun _ y => Landed n y) (execute b i) x := by
  have hnone {c : Step Unit} {x : Execution} (hc : Yields (fun _ y => Landed n y) c x) :
      Yields (fun _ y => Landed n y) (c >>= fun _ => pure (none : Option Call)) x :=
    hc.bind fun _ _ hy => yields_pure hy
  cases hi with
  | unreachable => exact yields_throw _
  | br depth => exact hnone (yields_branch depth hn)
  | brTable table default =>
    refine Yields.bind (P := fun _ y => y.thread.frames = x.thread.frames)
      (yields_pop.bind fun _ _ hy => yields_pure hy) fun k y hy => hnone (yields_branch _ ?_)
    rw [hy]
    exact hn
  | ret =>
    refine hnone (yields_get ?_)
    cases x.thread.frames.items.findIdx? (·.kind = .call) with
    | none => exact yields_throw _
    | some depth => exact yields_branch _ hn

end

theorem InStep.mono {slack : Prop} {loose loose' : Nat → Prop} {x x' : Execution}
    (h : x.InStep slack loose x') (hloose : ∀ k ≤ x.thread.frames.height, loose k → loose' k) :
    x.InStep slack loose' x' :=
  ⟨h.objects, h.thread.mono hloose⟩

/-- From a frame that need not be looked at any more the second one may be further, or less far. -/
theorem InStep.settle {slack : Prop} {n : Nat} {y y' : Execution} (h : y.InStep slack (n ≤ ·) y')
    (hy : Landed n y) (hy' : Landed n y') : y.InStep slack Tight y' :=
  ⟨h.objects, h.thread.operands,
    h.thread.frames.settle hy.height (fun _ hk => hk) hy.start hy'.start,
    h.thread.localBase, h.thread.callDepth⟩

end Execution

/-! ### Parts of an activation -/

namespace Activation

open Execution

variable {slack : Prop} {loose : Nat → Prop} {b b' : Bindings} {x x' : Execution}

/-- Executes an instruction that has been taken from the frames. -/
def take (b : Bindings) (frames : Stack Frame) (i : Instr) (site : Site) :
    Step (Option (Call × Site)) := do
  setFrames frames
  let call ← tryCatch (execute b i) fun e => throw (e.at site)
  return call.map (·, site)

theorem advance_take {f : Frame} {below : List Frame} {i : Instr} {rest : Expr}
    (hitems : x.thread.frames.items = f :: below) (hrest : f.rest = i :: rest) :
    advance b x = take b (x.thread.frames.setTop { f with rest }) i (f.site i) x := by
  unfold advance
  rw [bind_get, hitems]
  dsimp only
  rw [hrest]
  rfl

theorem lockstep_take (hb : b.InStep slack b') {frames frames' : Stack Frame} {i i' : Instr}
    (hframes : FramesInStep loose frames.items frames'.items) (hi : Instr.Trims i i')
    (site : Site) : Lockstep slack loose (take b frames i site) (take b' frames' i' site) := by
  have hcode (e : Error) : (e.at site).code = e.code := rfl
  exact (lockstep_setFrames hframes).bind fun _ =>
    ((lockstep_execute hb hi).rethrown hcode).bind fun _ => lockstep_pure _

theorem yields_take {frames : Stack Frame} {i : Instr} (hi : i.Transfers) (site : Site) :
    Yields (fun _ y => Landed frames.items.length y) (take b frames i site) x := by
  refine (yields_setFrames frames).bind fun _ y hy => ?_
  exact (yields_transfer hi (by rw [hy])).rethrown.bind fun _ _ hz => yields_pure hz

/-- Two instances in step take their next instructions.  If this fails, nothing is known of the top
frames any more, but these are about to be given up. -/
theorem abreast_advance (hb : b.InStep slack b') (hx : x.InStep slack Tight x') :
    Abreast slack (InStep slack Tight) (InStep slack (x.thread.frames.height ≤ ·))
      (advance b x) (advance b' x') := by
  have hmono {y y' : Execution} (hy : y.InStep slack Tight y') :
      y.InStep slack (x.thread.frames.height ≤ ·) y' := hy.mono fun _ _ => False.elim
  have hframes := hx.thread.frames
  generalize hitems : x.thread.frames.items = items at hframes
  generalize hitems' : x'.thread.frames.items = items' at hframes
  cases hframes with
  | nil =>
    unfold advance
    rw [bind_get, bind_get, hitems, hitems']
    exact .error (hmono hx)
  | @cons f f' below below' hf hbelow =>
    obtain ⟨hrest, hlength⟩ := hf.rest.resolve_left id
    have hheight : x.thread.frames.height = below.length + 1 := by
      rw [x.thread.frames.height_eq, hitems, List.length_cons]
    generalize hr : f.rest = rest at hrest
    generalize hr' : f'.rest = rest' at hrest
    cases hrest with
    | nil =>
      unfold advance
      rw [bind_get, bind_get, hitems, hitems']
      dsimp only
      rw [hr, hr']
      have hclosed : Lockstep slack Tight (exitFrame >>= fun _ => pure (none : Option (Call × Site)))
          (exitFrame >>= fun _ => pure none) := lockstep_exitFrame.bind fun _ => lockstep_pure _
      exact (hclosed.abreast hx).mono id hmono
    | @cons i i' rest rest' hi hrest =>
      rw [advance_take hitems hr, advance_take hitems' hr', hf.site hi]
      rw [hr, hr', List.length_cons, List.length_cons] at hlength
      refine ((lockstep_take hb ?_ hi _).abreast hx).mono id hmono
      rw [Stack.items_setTop hitems, Stack.items_setTop hitems']
      exact .cons ⟨hf.kind, hf.base, hf.params, hf.results, hf.savedLocalBase, hf.body,
        .inr ⟨hrest, by dsimp only; omega⟩⟩ hbelow
    | @cut i hi rest =>
      rw [advance_take hitems hr, advance_take hitems' hr', hf.site (.refl i)]
      -- One frame has dead code left that the other has not, so they are in step only loosely while
      -- the transfer runs.  Where it lands, they are tightly in step again.
      have htop := Stack.items_setTop (b := { f with rest }) hitems
      have htop' := Stack.items_setTop (b := { f' with rest := [] }) hitems'
      have htaken : FramesInStep (x.thread.frames.height ≤ ·)
          (x.thread.frames.setTop { f with rest }).items
          (x'.thread.frames.setTop { f' with rest := [] }).items := by
        rw [htop, htop']
        exact .cons ⟨hf.kind, hf.base, hf.params, hf.results, hf.savedLocalBase, hf.body,
          .inl (Nat.le_of_eq hheight)⟩ (hbelow.mono fun _ _ => False.elim)
      rcases ((lockstep_take hb htaken (.refl i) _).abreast (hmono hx)).cases with
        ⟨e, y, hslack, he, hrun⟩ | ⟨sent, y, y', hrun, hrun', hy⟩ | ⟨e, y, y', hrun, hrun', hy⟩
      · rw [hrun]
        exact .exhausted hslack he
      · have hlanded := (yields_take hi _).of_run hrun
        have hlanded' := (yields_take hi _).of_run hrun'
        rw [htop, List.length_cons, ← hheight] at hlanded
        rw [htop', List.length_cons, hbelow.length_eq, ← hheight] at hlanded'
        rw [hrun, hrun']
        exact .ok (hy.settle hlanded hlanded')
      · rw [hrun, hrun']
        exact .error hy

theorem lockstep_enter (hb : b.InStep slack b') (index : UInt32) (args : List Value) :
    Lockstep slack loose (enter index args b) (enter index args b') :=
  lockstep_operands fun hs => lockstep_found (hs.pushAll _) fun hs' =>
    (lockstep_setOperands hs').bind fun _ => lockstep_call hb index

theorem lockstep_resume (type : FuncType) (values : List Value) :
    Lockstep slack loose (resume type values) (resume type values) := by
  unfold resume
  split
  · exact lockstep_throw _
  · exact lockstep_operands fun hs => lockstep_found (hs.pushAll _) lockstep_setOperands

theorem lockstep_finish (types : List ValueType) :
    Lockstep slack loose (finish types) (finish types) := by
  refine lockstep_operands fun hs => lockstep_found (hs.popMany _) fun {p p'} hp => ?_
  obtain ⟨slots, rest⟩ := p
  obtain ⟨slots', rest'⟩ := p'
  obtain rfl : slots' = slots := hp.1
  exact (lockstep_setOperands hp.2).bind fun _ => lockstep_pure _

end Activation

end Wasm
