import Wasm.Proofs.Structured.Simulation

/-!
# Simulation of instructions and bodies

One lemma for each kind of instruction says that the machine, which stands in front of it, tracks
what the structured semantics makes of it; `tracks_instr` collects them.  The instructions of a
sequence follow one another, and the induction on the fuel gives bodies and loops.
-/

namespace Wasm.Structured

open Typing (Context HasType SeqHasType)
open Activation (advance)
open Execution (landed drop_withRest findIdx?_withRest)

variable {b : Bindings} {floor : Nat} {T : Array Table} {Γ : Context} {p : Place} {f : Frame}
  {i : Instr}
  {rest : Expr} {n least room : Nat} {σ : State} {run : Expr → State → Option Outcome}
  {x y : Execution}

/-! ### One step -/

/-- A step executes the next instruction of the frame. -/
theorem advance_within (p : Place) (f : Frame) (i : Instr) (rest : Expr) (σ : State) :
    advance b ((p.within f (i :: rest)).exec σ) =
      match Execution.execute b i ((p.within f rest).exec σ) with
      | .ok call x => .ok (call.map (·, Frame.site { f with rest := i :: rest } i)) x
      | .error e x => .error (e.at (Frame.site { f with rest := i :: rest } i)) x :=
  Activation.advance_cons rfl

theorem advances_within (hfloor : floor ≤ p.frames.length)
    (h : Execution.execute b i ((p.within f rest).exec σ) = .ok none y) :
    Advances b floor 1 ((p.within f (i :: rest)).exec σ) y := by
  refine .single (Nat.lt_succ_of_le hfloor) ?_
  rw [advance_within, h]
  rfl

/-- An instruction that stops the machine. -/
theorem stops_within {t : Trap} {P : Error → Objects → Prop} (hfloor : floor ≤ p.frames.length)
    (h : Execution.execute b i ((p.within f rest).exec σ) = .error t.error x)
    (hP : ∀ {e : Error}, e.code = t.code → P e x.objects) :
    Stops b floor ((p.within f (i :: rest)).exec σ) P := by
  refine ⟨0, _, t.error.at (Frame.site { f with rest := i :: rest } i), x, .refl _,
    Nat.lt_succ_of_le hfloor, ?_, hP rfl⟩
  rw [advance_within, h]

/-- An error of the machine that is the trap of the run, or one of the limits. -/
theorem tracks_error {t : Trap} {r : Option Outcome} (hfloor : floor ≤ p.frames.length)
    (h : Execution.execute b i ((p.within f rest).exec σ) = .error t.error x)
    (ht : t = .stackOverflow ∨ t = .callStackExhausted p.callDepth ∨
      r = some (.trap t x.objects)) :
    Tracks b floor T Γ p f rest n least ((p.within f (i :: rest)).exec σ) r := by
  rcases ht with rfl | rfl | rfl
  · exact .inl (stops_within hfloor h .inl)
  · exact .inl (stops_within hfloor h .inr)
  · exact .inr (stops_within (P := fun e o => e.code = t.code ∧ o = x.objects) hfloor h
      fun he => ⟨he, rfl⟩)

/-! ### Instructions without a body -/

theorem execute_simple {op : Opcode} (hsimple : isSimple op = true) (imm : Immediate) :
    Execution.execute b (.plain op imm) = (do
      Execution.simple b (.plain op imm)
      return none) := by
  cases op <;> first | rfl | cases hsimple

theorem plain_simple {op : Opcode} (hsimple : isSimple op = true) (imm : Immediate) (σ : State) :
    plain b run op imm σ =
      Outcome.ofStep (fun _ σ => some (.normal σ)) (simple b op imm σ) := by
  cases op <;> first | rfl | cases hsimple

theorem tracks_simple (run : Expr → State → Option Outcome) {op : Opcode} {imm : Immediate}
    {ps rs : List ValueType}
    (htyped : HasType Γ (.plain op imm) ps rs) (hsimple : isSimple op = true)
    (hmodule : Γ.module = b.module) (hfloor : floor ≤ p.frames.length)
    (hfits : Fits b T Γ (n + ps.length) σ) :
    Tracks b floor T Γ p f rest (n + rs.length) least ((p.within f (.plain op imm :: rest)).exec σ)
      (plain b run op imm σ) := by
  rw [plain_simple hsimple]
  rcases (follows_simple (p := p.within f rest) (σ := σ) b op imm).safely
    (safely_simple htyped hsimple hmodule hfits) with
    ⟨_, σ', hd, hc, hfits', -⟩ | ⟨t, σ', hc, hd, -, -⟩
  · rw [hd]
    have hexec : Execution.execute b (.plain op imm) ((p.within f rest).exec σ) =
        .ok none ((p.within f rest).exec σ') := by
      rw [execute_simple hsimple, Execution.bind_ok hc]
      rfl
    exact .inr ⟨⟨1, advances_within hfloor hexec⟩, hfits'⟩
  · refine tracks_error hfloor ((congrFun (execute_simple hsimple imm) _).trans
      (Execution.bind_error hc)) (hd.imp_right fun hd => .inr ?_)
    rw [hd]
    rfl

/-- A condition or an index on top of the operands. -/
theorem exists_popU32 (hfits : Fits b T Γ (n + 1) σ) : ∃ slot σ', pop σ = .ok slot σ' ∧
    (∀ p : Place, Execution.popU32 (p.exec σ) = .ok slot.toUInt32 (p.exec σ')) ∧
    σ'.locals = σ.locals ∧ Fits b T Γ n σ' := by
  rcases σ with ⟨_ | ⟨slot, below⟩, locals, objects⟩
  · cases hfits.operands
  · exact ⟨slot, ⟨below, locals, objects⟩, rfl, fun p => Execution.popU32_ofLists slot, rfl,
      Nat.succ.inj hfits.operands, hfits.locals, hfits.linked⟩

theorem base_congr {σ' : State} (h : σ'.locals = σ.locals) (p : Place) : p.base σ' = p.base σ := by
  rw [Place.base, h]
  rfl

/-- A branch on the machine lands where the label is. -/
theorem lands_branch (rest : Expr) {depth : UInt32} {label : List ValueType}
    (hlabelled : Labelled Γ (f :: p.frames) (p.base σ).length room)
    (hlabel : Γ.labels[depth.toNat]? = some label) (hle : label.length ≤ σ.operands.length)
    (hlocals : σ.locals.length = Γ.locals.length) (hlinked : LinkedTo b T σ.objects) :
    ∃ y, Execution.branch depth ((p.within f rest).exec σ) = .ok () y ∧
      ∀ floor x, Advances b floor 1 x y → Lands b floor T Γ p f x depth.toNat σ := by
  have hslots : (p.base σ).length + label.length ≤ (p.slots σ).length := by
    rw [slots_eq, List.length_append]
    omega
  obtain ⟨g, outer, hdrop, hrun⟩ := (hlabelled.withRest rest).branch σ.objects p.limit
    p.lower.length p.callDepth hlabel hslots
  obtain ⟨g', hdrop', hlanded⟩ := drop_withRest hdrop
  refine ⟨_, hrun, fun floor x hsteps =>
    ⟨hlocals, hlinked, label, g', outer, [], 0, hlabel, hle, hdrop', ?_⟩⟩
  rw [hlanded] at hsteps
  exact hsteps

theorem tracks_br {depth : UInt32} {label ts : List ValueType}
    (hlabelled : Labelled Γ (f :: p.frames) (p.base σ).length room)
    (hlabel : Γ.labels[depth.toNat]? = some label) (hfloor : floor ≤ p.frames.length)
    (hfits : Fits b T Γ (n + (ts ++ label).length) σ) {k : Nat} :
    Tracks b floor T Γ p f rest k least ((p.within f (.plain .br (.index depth) :: rest)).exec σ)
      (some (.branch depth.toNat σ)) := by
  obtain ⟨y, hrun, hlands⟩ := lands_branch rest hlabelled hlabel
    (by rw [hfits.operands, List.length_append]; omega) hfits.locals hfits.linked
  exact .inr (hlands _ _ (advances_within hfloor (Execution.bind_ok hrun)))

theorem tracks_brIf (run : Expr → State → Option Outcome) {depth : UInt32} {label : List ValueType}
    (hlabelled : Labelled Γ (f :: p.frames) (p.base σ).length room)
    (hlabel : Γ.labels[depth.toNat]? = some label) (hfloor : floor ≤ p.frames.length)
    (hfits : Fits b T Γ (n + (label ++ [ValueType.i32]).length) σ) :
    Tracks b floor T Γ p f rest (n + label.length) least
      ((p.within f (.plain .brIf (.index depth) :: rest)).exec σ)
      (plain b run .brIf (.index depth) σ) := by
  have hfits : Fits b T Γ (n + label.length + 1) σ := by
    rwa [List.length_append] at hfits
  obtain ⟨slot, σ', hpop, hpop', hlocals, hfits'⟩ := exists_popU32 hfits
  have houtcome : plain b run .brIf (.index depth) σ =
      some (if slot.toUInt32 ≠ 0 then .branch depth.toNat σ' else .normal σ') := by
    show Outcome.ofStep _ (pop σ) = _
    rw [hpop]
    rfl
  have hexec : Execution.execute b (.plain .brIf (.index depth)) ((p.within f rest).exec σ) =
      (if slot.toUInt32 ≠ 0 then do
        Execution.branch depth
        return none
      else pure none) ((p.within f rest).exec σ') := by
    refine (Execution.bind_ok (hpop' _)).trans ?_
    split <;> rfl
  rw [houtcome]
  by_cases hcondition : slot.toUInt32 ≠ 0
  · rw [if_pos hcondition] at hexec ⊢
    rw [← base_congr hlocals] at hlabelled
    obtain ⟨y, hrun, hlands⟩ := lands_branch rest hlabelled hlabel
      (by rw [hfits'.operands]; omega) hfits'.locals hfits'.linked
    exact .inr (hlands _ _ (advances_within hfloor (hexec.trans (Execution.bind_ok hrun))))
  · rw [if_neg hcondition] at hexec ⊢
    exact .inr ⟨⟨1, advances_within hfloor hexec⟩, hfits'⟩

theorem tracks_brTable (run : Expr → State → Option Outcome) {table : List UInt32}
    {default : UInt32} {label ts : List ValueType}
    (hlabelled : Labelled Γ (f :: p.frames) (p.base σ).length room)
    (hdefault : Γ.labels[default.toNat]? = some label)
    (htable : ∀ depth ∈ table, Γ.labels[depth.toNat]? = some label)
    (hfloor : floor ≤ p.frames.length)
    (hfits : Fits b T Γ (n + (ts ++ label ++ [ValueType.i32]).length) σ) {k : Nat} :
    Tracks b floor T Γ p f rest k least
      ((p.within f (.plain .brTable (.labels table default) :: rest)).exec σ)
      (plain b run .brTable (.labels table default) σ) := by
  have hfits : Fits b T Γ (n + (ts.length + label.length) + 1) σ := by
    rwa [List.length_append, List.length_append] at hfits
  obtain ⟨slot, σ', hpop, hpop', hlocals, hfits'⟩ := exists_popU32 hfits
  have houtcome : plain b run .brTable (.labels table default) σ =
      some (.branch (table[slot.toUInt32.toNat]?.getD default).toNat σ') := by
    show Outcome.ofStep _ (pop σ) = _
    rw [hpop]
    rfl
  have hlabel : Γ.labels[(table[slot.toUInt32.toNat]?.getD default).toNat]? = some label := by
    cases hentry : table[slot.toUInt32.toNat]? with
    | none => exact hdefault
    | some depth => exact htable depth (List.mem_of_getElem? hentry)
  rw [houtcome]
  rw [← base_congr hlocals] at hlabelled
  obtain ⟨y, hrun, hlands⟩ := lands_branch rest hlabelled hlabel
    (by rw [hfits'.operands]; omega) hfits'.locals hfits'.linked
  refine .inr (hlands _ _ (advances_within hfloor ?_))
  exact (Execution.bind_ok (hpop' _)).trans (Execution.bind_ok hrun)

theorem tracks_ret {ts : List ValueType}
    (hlabelled : Labelled Γ (f :: p.frames) (p.base σ).length room)
    (hfloor : floor ≤ p.frames.length) (hfits : Fits b T Γ (n + (ts ++ Γ.results).length) σ)
    {k : Nat} :
    Tracks b floor T Γ p f rest k least ((p.within f (.plain .ret .none :: rest)).exec σ)
      (some (.ret σ)) := by
  have hle : Γ.results.length ≤ σ.operands.length := by
    rw [hfits.operands, List.length_append]
    omega
  have hslots : (p.base σ).length + Γ.results.length ≤ (p.slots σ).length := by
    rw [slots_eq, List.length_append]
    omega
  obtain ⟨depth, g, outer, hindex, hresults, hdrop, hrun⟩ := (hlabelled.withRest rest).ret
    σ.objects p.limit p.lower.length p.callDepth hslots
  obtain ⟨g', hdrop', hlanded⟩ := drop_withRest hdrop
  rw [hlanded] at hrun
  rw [findIdx?_withRest] at hindex
  refine .inr ⟨depth, hindex, hresults, hfits.locals, hfits.linked, _, g', outer, [], 0, hresults,
    hle, hdrop', ?_⟩
  exact advances_within hfloor (Execution.bind_ok hrun)

/-! ### Calls and blocks -/

/-- An instance that can call its own functions only: it imports none, and the tables hold no
others. -/
structure Closed (b : Bindings) (T : Array Table) : Prop where
  defined : ∀ {x : UInt32} {f : Func}, b.func x = .ok f →
    ∃ type localCount e, f = .defined type localCount e
  own : ∀ {o : Objects} {f : FuncRef}, o.tables = T → Holds b o f →
    ∃ x g, b.ownIndex? f = some x ∧ b.func x = .ok g ∧ g.type = f.type

/-- An instruction that has led into a block or a function. -/
theorem Tracks.step {r : Option Outcome} (h : Tracks b floor T Γ p f rest n least y r)
    (hfloor : floor ≤ p.frames.length)
    (hexec : Execution.execute b i ((p.within f rest).exec σ) = .ok none y) :
    Tracks b floor T Γ p f rest n (least + 1) ((p.within f (i :: rest)).exec σ) r :=
  h.after (advances_within hfloor hexec)

/-- A call by index, whichever instruction has led to it. -/
theorem tracks_callFunc {index : UInt32} {g : Func} {σ' : State}
    (hrun : TracksBody b floor T least run) (hwired : Wired b) (hclosed : Closed b T)
    (hg : b.func index = .ok g) (hfloor : floor ≤ p.frames.length)
    (hfits : Fits b T Γ (n + g.type.params.length) σ')
    (hexec : Execution.execute b i ((p.within f rest).exec σ) =
      Execution.call b index ((p.within f rest).exec σ')) :
    Tracks b floor T Γ p f rest (n + g.type.results.length) (least + 1)
      ((p.within f (i :: rest)).exec σ) (call b run index σ') := by
  obtain ⟨type, localCount, e, rfl⟩ := hclosed.defined hg
  rcases tracks_call f rest hrun hwired hg hfloor hfits with
    ⟨t, ht, hcall⟩ | ⟨y, hcall, htracks⟩
  · refine tracks_error hfloor (hexec.trans hcall) ?_
    rcases ht with rfl | rfl
    · exact .inr (.inl rfl)
    · exact .inl rfl
  · exact htracks.step hfloor (hexec.trans hcall)

theorem tracks_callIndirect {typeIndex : UInt32} {sig : FuncType}
    (hrun : TracksBody b floor T least run) (hwired : Wired b) (hclosed : Closed b T)
    (htable : 0 < b.module.count .table) (hsig : b.module.types[typeIndex.toNat]? = some sig)
    (hfloor : floor ≤ p.frames.length)
    (hfits : Fits b T Γ (n + sig.params.length + 1) σ) :
    Tracks b floor T Γ p f rest (n + sig.results.length) (least + 1)
      ((p.within f (.plain .callIndirect (.typeIndex typeIndex) :: rest)).exec σ)
      (plain b run .callIndirect (.typeIndex typeIndex) σ) := by
  have hexec := Execution.callIndirect_eq (b := b) typeIndex
  change Execution.execute b (.plain .callIndirect (.typeIndex typeIndex)) = _ at hexec
  have houtcome : plain b run .callIndirect (.typeIndex typeIndex) σ =
      Outcome.ofStep (callRef b run) (selected b typeIndex σ) := rfl
  rw [houtcome]
  rcases (follows_selected (p := p.within f rest) (σ := σ) b typeIndex).safely
    (safely_selected hfits htable hsig) with
    ⟨g, σ', hd, hc, ⟨hfits', htype, hholds⟩, -⟩ | ⟨t, σ', hc, hd, -, -⟩
  · obtain ⟨index, h, hown, hh, hht⟩ := hclosed.own hfits'.linked.tables hholds
    have hcalled : Outcome.ofStep (callRef b run) (selected b typeIndex σ) =
        call b run index σ' := by
      rw [hd]
      show callRef b run g σ' = _
      rw [callRef, hown]
    rw [← htype, ← hht] at hfits'
    rw [hcalled, ← htype, ← hht]
    refine tracks_callFunc hrun hwired hclosed hh hfloor hfits' ?_
    rw [hexec, Execution.bind_ok hc, hown]
  · refine tracks_error hfloor ((congrFun hexec _).trans (Execution.bind_error hc))
      (hd.imp_right fun hd => .inr ?_)
    rw [hd]
    rfl

theorem tracks_ifElse {type : BlockType} {sig : FuncType} {thenBody elseBody : Expr}
    {runLoop : Nat → Expr → State → Option Outcome}
    (hrun : TracksBody b floor T least run) (hmodule : Γ.module = b.module)
    (hsig : type.resolve? b.module.types = some sig)
    (hthen : SeqHasType (Γ.enter sig.results) thenBody sig.params sig.results)
    (helse : SeqHasType (Γ.enter sig.results) elseBody sig.params sig.results)
    (hroom : max (Expr.nesting thenBody) (Expr.nesting elseBody) ≤ room)
    (hlabelled : Labelled Γ (f :: p.frames) (p.base σ).length (room + 1))
    (hfloor : floor ≤ p.frames.length) (hfits : Fits b T Γ (n + sig.params.length + 1) σ) :
    Tracks b floor T Γ p f rest (n + sig.results.length) (least + 1)
      ((p.within f (.ifElse .ifElse type thenBody elseBody :: rest)).exec σ)
      (instr b run runLoop (.ifElse .ifElse type thenBody elseBody) σ) := by
  obtain ⟨slot, σ', hpop, hpop', hlocals, hfits'⟩ := exists_popU32 hfits
  have htyped : SeqHasType (Γ.enter sig.results)
      (if slot.toUInt32 ≠ 0 then thenBody else elseBody) sig.params sig.results := by
    split
    · exact hthen
    · exact helse
  have hnesting : Expr.nesting (if slot.toUInt32 ≠ 0 then thenBody else elseBody) ≤ room := by
    split <;> omega
  rw [← base_congr hlocals] at hlabelled
  obtain ⟨y, henter, htracks⟩ := tracks_block f rest .ifElse hrun hmodule
    (by decide) (by decide) hsig htyped hnesting hlabelled hfloor hfits'
  have houtcome : instr b run runLoop (.ifElse .ifElse type thenBody elseBody) σ =
      block b type (fun sig σ => (run (if slot.toUInt32 ≠ 0 then thenBody else elseBody) σ).map
        (.caught sig.results.length)) σ' := by
    show Outcome.ofStep _ (pop σ) = _
    rw [hpop]
    rfl
  rw [houtcome]
  refine htracks.step hfloor ?_
  refine (Execution.bind_ok (hpop' _)).trans ?_
  exact Execution.bind_ok henter

/-! ### Sequences -/

theorem isSimple_of_signature {op : Opcode} {sig : FuncType} (h : op.signature? = some sig) :
    isSimple op = true := by
  cases op <;> first | rfl | cases h

/-- The machine tracks every typed instruction, given that it tracks the bodies inside. -/
theorem tracks_instr (rest : Expr) {runLoop : Nat → Expr → State → Option Outcome}
    {ps rs : List ValueType}
    (hrun : TracksBody b floor T least run) (hrunLoop : TracksLoop b floor T least runLoop)
    (hwired : Wired b) (hclosed : Closed b T) (hmodule : Γ.module = b.module)
    (htyped : HasType Γ i ps rs) (hroom : i.nesting ≤ room)
    (hlabelled : Labelled Γ (f :: p.frames) (p.base σ).length room)
    (hfloor : floor ≤ p.frames.length) (hfits : Fits b T Γ (n + ps.length) σ) :
    Tracks b floor T Γ p f rest (n + rs.length) (least + 1) ((p.within f (i :: rest)).exec σ)
      (instr b run runLoop i σ) := by
  have h := htyped
  cases htyped with
  | unreachable =>
    exact tracks_error (t := .unreachable) hfloor rfl (.inr (.inr rfl))
  | @block _ type sig body hsig hbody =>
    rw [← BlockType.resolve?_eq_some_iff, hmodule] at hsig
    obtain ⟨room, rfl, hbody'⟩ := exists_room hroom
    obtain ⟨y, henter, htracks⟩ := tracks_block f rest .block hrun
      hmodule (by decide) (by decide) hsig hbody hbody'
      hlabelled hfloor hfits
    exact htracks.step hfloor (Execution.bind_ok henter)
  | @loop _ type sig body hsig hbody =>
    rw [← BlockType.resolve?_eq_some_iff, hmodule] at hsig
    obtain ⟨room, rfl, hbody'⟩ := exists_room hroom
    obtain ⟨y, henter, htracks⟩ := tracks_loop f rest hrunLoop hmodule
      hsig hbody hbody' hlabelled hfloor hfits
    exact htracks.step hfloor (Execution.bind_ok henter)
  | @ifElse _ type sig thenBody elseBody hsig hthen helse =>
    rw [← BlockType.resolve?_eq_some_iff, hmodule] at hsig
    obtain ⟨room, rfl, hbody'⟩ := exists_room hroom
    rw [List.length_append] at hfits
    exact tracks_ifElse hrun hmodule hsig hthen helse hbody'
      hlabelled hfloor hfits
  | br hlabel => exact tracks_br hlabelled hlabel hfloor hfits
  | brIf hlabel => exact tracks_brIf run hlabelled hlabel hfloor hfits
  | brTable hdefault htable => exact tracks_brTable run hlabelled hdefault htable hfloor hfits
  | ret => exact tracks_ret hlabelled hfloor hfits
  | @call _ x _ sig hfunc hsig =>
    have htype := Module.funcType?_eq_some_iff.mpr ⟨_, hfunc, hsig⟩
    obtain ⟨g, hg, rfl⟩ := hwired.func (hmodule ▸ htype)
    exact tracks_callFunc hrun hwired hclosed hg hfloor hfits rfl
  | @callIndirect _ x sig htable hsig =>
    rw [List.length_append] at hfits
    exact tracks_callIndirect hrun hwired hclosed (hmodule ▸ htable) (hmodule ▸ hsig) hfloor hfits
  | access _ hsig =>
    exact tracks_simple run h (isSimple_of_signature hsig) hmodule hfloor hfits
  | operator _ hsig =>
    exact tracks_simple run h (isSimple_of_signature hsig) hmodule hfloor hfits
  | _ => exact tracks_simple run h rfl hmodule hfloor hfits

theorem length_base {k : Nat} (h : σ.locals.length = k) (p : Place) :
    (p.base σ).length = p.below.length + k + p.lower.length := by
  simp only [Place.base, List.length_append, List.length_reverse, h]
  omega

/-- A sequence goes on where its first instruction has come to its end. -/
theorem tracks_sequence {runLoop : Nat → Expr → State → Option Outcome}
    (hrun : TracksBody b floor T least run) (hrunLoop : TracksLoop b floor T least runLoop)
    (hwired : Wired b) (hclosed : Closed b T) :
    TracksBody b floor T (least + 1) (sequence (instr b run runLoop)) := by
  intro Γ e ts us p f room σ hmodule htyped hroom hlabelled hfloor hfits
  induction e generalizing ts σ with
  | nil =>
    obtain rfl := Typing.seqHasType_nil_iff.mp htyped
    exact .inr ⟨⟨0, .refl _⟩, hfits⟩
  | cons i rest ih =>
    obtain ⟨ws, ps, rs, rfl, hfirst, hrest⟩ := Typing.seqHasType_cons_iff.mp htyped
    rw [List.length_append] at hfits
    rw [Expr.nesting] at hroom
    have hinstr := tracks_instr (f := f) rest hrun hrunLoop hwired hclosed hmodule hfirst
      (Nat.le_trans (Nat.le_max_left ..) hroom) hlabelled hfloor hfits
    rw [sequence]
    revert hinstr
    cases instr b run runLoop i σ with
    | none => exact id
    | some outcome =>
      cases outcome with
      | normal σ' =>
        rintro (hexceeds | ⟨⟨k, hsteps⟩, hfits'⟩)
        · exact .inl hexceeds
        · rw [← List.length_append] at hfits'
          have hlabelled' : Labelled Γ (f :: p.frames) (p.base σ').length room := by
            rwa [length_base hfits'.locals, ← length_base hfits.locals]
          have hgoes := ih hrest (Nat.le_trans (Nat.le_max_right ..) hroom) hlabelled' hfits'
          exact (hgoes.after hsteps).mono (Nat.le_add_right ..)
      | branch depth σ' => exact id
      | ret σ' => exact id
      | trap t o => exact id

/-! ### Bodies and loops -/

/-- Landing at a loop starts it over with its parameters. -/
theorem landed_loop {g : Frame} {σ : State} {above : List UInt64} (hloop : g.kind = .loop)
    (hbase : g.base = (p.base σ).length) (hle : g.params ≤ above.length) :
    landed g σ.objects (above ++ p.base σ) p.limit p.frames p.lower.length p.callDepth =
      (p.within g g.body).exec { σ with operands := above.take g.params } := by
  rw [landed, if_pos hloop, hbase, unwound_append hle]
  rfl

/-- One more run of the body of a loop, after which the loop may go on with less fuel. -/
theorem tracks_again {runLoop : Nat → Expr → State → Option Outcome}
    (hrun : TracksBody b floor T (least + 1) run) (hrunLoop : TracksLoop b floor T least runLoop) :
    TracksLoop b floor T (least + 1) fun params e σ => match run e σ with
      | some (.branch 0 σ) => runLoop params e { σ with operands := σ.operands.take params }
      | some (.branch (depth + 1) σ) => some (.branch depth σ)
      | outcome => outcome := by
  intro Γ ps us p f g rest outer room σ hmodule htyped hroom hloop hparams hresults hbase hlabelled
    hfloor hfits
  have hbody := @hrun (Γ.enter ps) _ _ _ _ g _ _ hmodule htyped hroom hlabelled
    (Nat.le_succ_of_le hfloor) hfits
  have hbase' : ∀ {σ' : State}, σ'.locals.length = Γ.locals.length →
      g.base = ((p.inside f rest outer).base σ').length := fun {σ'} hlocals => by
    rw [hbase, length_base hfits.locals, length_base hlocals, Context.locals_enter]
  have hcall : g.kind ≠ .call := by simp [hloop]
  dsimp only
  revert hbody
  match run g.body σ with
  | some (.branch 0 σ') =>
    rintro (hexceeds | ⟨hlocals, hlinked, label, g', rest', junk, k, hlabel, hle, hdrop, hsteps⟩)
    · exact .inl hexceeds
    · cases hdrop
      -- A branch to the loop lands at its beginning, with the parameters and no junk above them.
      obtain rfl : ps = label := Option.some.inj hlabel
      have hle' : g.params ≤ (σ'.operands ++ junk).length := by
        rw [hparams, List.length_append]
        omega
      rw [← List.append_assoc, landed_loop hloop (hbase' hlocals) hle', hparams,
        List.take_append_of_le_length hle] at hsteps
      have hlabelled' : Labelled (Γ.enter ps) (g :: (p.inside f rest outer).frames)
          ((p.inside f rest outer).base σ').length room := by
        rwa [← hbase' hlocals, hbase]
      have hgoes := @hrunLoop Γ ps us p f g rest outer room
        { σ' with operands := σ'.operands.take ps.length } hmodule htyped hroom hloop hparams
        hresults (hbase' hlocals) hlabelled' hfloor
        ⟨by rw [List.length_take, Nat.min_eq_left hle], hlocals, hlinked⟩
      exact (hgoes.after hsteps).mono (by omega)
  | none => exact id
  | some (.normal σ') =>
    exact fun h => h.imp_right fun h =>
      Simulates.leave h hcall hresults hbase' (fun {_} hr => by cases hr) hfloor
  | some (.branch (depth + 1) σ') =>
    exact fun h => h.imp_right fun h =>
      Simulates.leave h hcall hresults hbase' (fun {_} hr => by cases hr) hfloor
  | some (.ret σ') =>
    exact fun h => h.imp_right fun h =>
      Simulates.leave h hcall hresults hbase' (fun {_} hr => by cases hr) hfloor
  | some (.trap t o) => exact id

/-- The machine tracks bodies and loops, whatever the fuel. -/
theorem tracks_body_loop (hwired : Wired b) (hclosed : Closed b T) (fuel : Nat) :
    TracksBody b floor T fuel (body b fuel) ∧ TracksLoop b floor T fuel (loop b fuel) := by
  induction fuel with
  | zero =>
    constructor
    · intro Γ e ts us p f room σ _ _ _ _ _ _
      exact .inr ⟨0, _, Nat.le_refl 0, .refl _⟩
    · intro Γ ps us p f g rest outer room σ _ _ _ _ _ _ _ _ _ _
      exact .inr ⟨0, _, Nat.le_refl 0, .refl _⟩
  | succ fuel ih =>
    have hsequence := tracks_sequence ih.1 ih.2 hwired hclosed
    exact ⟨hsequence, tracks_again hsequence ih.2⟩

end Wasm.Structured
