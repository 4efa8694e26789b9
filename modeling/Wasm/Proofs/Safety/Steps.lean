import Wasm.Proofs.Errors.Host
import Wasm.Proofs.Safety.Frames
import Wasm.Proofs.Structured.Run

/-!
# Steps of a typed activation

An activation whose thread is in order takes a step: then its thread is in order again, or it waits
for a function that the instance has imported or found in its table, or it stops with an error that
is not internal (`goes_execute`, one lemma for each kind of instruction before it).  In every case
what the activation has found on its thread is still there.
-/

namespace Wasm.Safety

open Typing (Context HasType SeqHasType)
open Execution (left landed)
open Structured (Wired Holds Follows Safely Fits Shaped LinkedTo Place isSimple)

/-- A function that the instance can call outside of itself. -/
def Reaches (b : Bindings) (o : Objects) (f : FuncRef) : Prop :=
  (∃ x, b.func x = .ok (.imported f)) ∨ Holds b o f

/-- What a part of an activation may lead to. -/
def Goes (b : Bindings) (e : Thread) (final : List ValueType) (o : Objects) :
    EStateM.Result Error Execution (Option Call) → Prop
  | .ok none x => o.Later x.objects ∧ Steady b.module e final [] x.thread
  | .ok (some call) x => o.Later x.objects ∧
    Steady b.module e final call.func.type.results x.thread ∧ Reaches b x.objects call.func
  | .error err x => o.Later x.objects ∧ ¬ err.IsInternal ∧ Above e x.thread

/-- The functions of its own that an instance finds in its table are bound. -/
def Owns (b : Bindings) (T : Array Table) : Prop :=
  ∀ {o : Objects} {f : FuncRef} {x : UInt32}, o.tables = T → Holds b o f → b.ownIndex? f = some x →
    ∃ g, b.func x = .ok g ∧ g.type = f.type

variable {b : Bindings} {e : Thread} {final lower ts : List ValueType}
  {limit localBase callDepth floor room : Nat} {Γ : Context} {Γ? : Option Context} {f : Frame}
  {frames below : List Frame} {slots : List UInt64} {o o' : Objects} {rest : Expr}

theorem Goes.later {r : EStateM.Result Error Execution (Option Call)} (h : Goes b e final o' r)
    (hlater : o.Later o') : Goes b e final o r := by
  match r, h with
  | .ok none x, ⟨hlater', h⟩ => exact ⟨hlater.trans hlater', h⟩
  | .ok (some call) x, ⟨hlater', h⟩ => exact ⟨hlater.trans hlater', h⟩
  | .error err x, ⟨hlater', h⟩ => exact ⟨hlater.trans hlater', h⟩

theorem Goes.congr {r r' : EStateM.Result Error Execution (Option Call)} (heq : r' = r)
    (h : Goes b e final o r) : Goes b e final o r' :=
  heq ▸ h

/-! ### Calls -/

section Calls

variable (hlimit : limit = e.operands.limit)
include hlimit

/-- A call that leaves the instance, with its arguments on top of the slots. -/
theorem goes_leave {ref : FuncRef} (href : Reaches b o ref)
    (hbegins : Begins Γ? frames (e.operands.height + lower.length))
    (hbelow : Runs b.module e final Γ? frames (lower ++ ref.type.results) localBase callDepth)
    (hslots : Shows e (lower ++ ref.type.params) slots) :
    Goes b e final o
      ((some <$> Execution.leave ref) ⟨o, .ofLists slots limit frames localBase callDepth⟩) := by
  obtain ⟨args, slots', rfl, hargs, hslots'⟩ := Shows.append_iff.mp hslots
  have hlength : ref.type.params.length ≤ (args ++ slots').length := by
    rw [List.length_append, hargs.length_eq]
    exact Nat.le_add_right _ _
  have hleave := Execution.bind_ok (f := pure ∘ some) (@Execution.leave_ofLists o _ limit frames
    localBase callDepth ref hlength)
  rw [← hargs.length_eq, List.drop_left] at hleave
  exact Goes.congr hleave
    ⟨Objects.later_refl o, waiting_ofLists hbegins hbelow hslots' hlimit, href⟩

/-- A call by index, with its arguments on top of the slots. -/
theorem goes_call (hwired : Wired b) {index : UInt32} {g : Func} (hg : b.func index = .ok g)
    (hbegins : Begins Γ? frames (e.operands.height + lower.length))
    (hbelow : Runs b.module e final Γ? frames (lower ++ g.type.results) localBase callDepth)
    (hslots : Shows e (lower ++ g.type.params) slots) :
    Goes b e final o
      (Execution.call b index ⟨o, .ofLists slots limit frames localBase callDepth⟩) := by
  cases g with
  | imported ref =>
    have hcall : Execution.call b index = some <$> Execution.leave ref := by
      unfold Execution.call
      rw [hg]
      rfl
    rw [hcall]
    exact goes_leave hlimit (.inl ⟨index, hg⟩) hbegins hbelow hslots
  | defined type localCount body =>
    have hlength : slots.length = e.operands.height + lower.length + type.params.length := by
      rw [hslots.length_eq, List.length_append, Nat.add_assoc]
      rfl
    have hbase : slots.length - type.params.length = e.operands.height + lower.length := by omega
    rcases @Execution.call_defined b o slots limit frames localBase callDepth index type localCount
      body hg (by omega) with ⟨t, ht, hcall⟩ | hcall
    · rw [hcall]
      refine ⟨Objects.later_refl o, ?_, hslots.suffix, hbelow.suffix_frames, hlimit⟩
      rcases ht with rfl | rfl
      · exact Error.not_isInternal .trap Code.callStackExhausted (by decide)
      · exact Error.not_isInternal .trap Code.stackOverflow (by decide)
    · rw [hcall, hbase]
      obtain ⟨declared, hdeclared, htyped, hnesting⟩ := hwired.body hg
      have hruns := Runs.call (f := Execution.callFrame type body _ localBase) hbelow rfl rfl hbegins
        (.begin rfl htyped rfl (Nat.le_refl _) (.ofBody rfl rfl (Nat.le_add_right _ _) hnesting))
      rw [List.append_nil, ← List.append_assoc] at hruns
      rw [← hdeclared]
      exact ⟨Objects.later_refl o,
        steady_ofLists hruns (hslots.push (ofTypes_replicate_zero declared)) hlimit⟩

/-! ### Branches -/

omit hlimit in
theorem objects_landed (f : Frame) :
    (landed f o slots limit frames localBase callDepth).objects = o := by
  rw [landed]
  split <;> rfl

omit hlimit in
theorem later_landed (f : Frame) :
    o.Later (landed f o slots limit frames localBase callDepth).objects := by
  rw [objects_landed]
  exact Objects.later_refl o

omit hlimit in
/-- There are slots enough above the floor for what a label takes. -/
theorem floor_add_le {label between : List ValueType}
    (hfloor : floor ≤ e.operands.height + lower.length)
    (hslots : Shows e (lower ++ between ++ label) slots) : floor + label.length ≤ slots.length := by
  have hlength := hslots.length_eq
  rw [List.length_append, List.length_append] at hlength
  omega

/-- A step that lands at a label, with the values for it on top of the slots. -/
theorem goes_landed {c : Execution.Step Unit} {depth : Nat} {label between : List ValueType}
    {g : Frame} {below : List Frame}
    (h : Runs b.module e final (some Γ) frames (lower ++ ts) localBase callDepth)
    (hlabelled : Labelled Γ frames floor room)
    (hfloor : floor ≤ e.operands.height + lower.length) (hlabel : Γ.labels[depth]? = some label)
    (hslots : Shows e (lower ++ between ++ label) slots) (hdrop : frames.drop depth = g :: below)
    (hrun : c ⟨o, .ofLists slots limit frames localBase callDepth⟩ =
      .ok () (landed g o slots limit below localBase callDepth)) :
    Goes b e final o ((do
      c
      return none) ⟨o, .ofLists slots limit frames localBase callDepth⟩) := by
  obtain ⟨g', below', hdrop', harity, hbase⟩ := hlabelled.frame hlabel
  cases hdrop.symm.trans hdrop'
  rw [Execution.bind_ok hrun]
  rw [List.append_assoc] at hslots
  exact ⟨later_landed g, h.land hlabel hdrop (by omega) hslots hlimit⟩

theorem goes_branch {depth : UInt32} {label between : List ValueType}
    (h : Runs b.module e final (some Γ) frames (lower ++ ts) localBase callDepth)
    (hlabelled : Labelled Γ frames floor room)
    (hfloor : floor ≤ e.operands.height + lower.length)
    (hlabel : Γ.labels[depth.toNat]? = some label)
    (hslots : Shows e (lower ++ between ++ label) slots) :
    Goes b e final o ((do
      Execution.branch depth
      return none) ⟨o, .ofLists slots limit frames localBase callDepth⟩) := by
  obtain ⟨g, below, hdrop, hrun⟩ :=
    hlabelled.branch o limit localBase callDepth hlabel (floor_add_le hfloor hslots)
  exact goes_landed hlimit h hlabelled hfloor hlabel hslots hdrop hrun

theorem goes_ret {between : List ValueType}
    (h : Runs b.module e final (some Γ) frames (lower ++ ts) localBase callDepth)
    (hlabelled : Labelled Γ frames floor room)
    (hfloor : floor ≤ e.operands.height + lower.length)
    (hslots : Shows e (lower ++ between ++ Γ.results) slots) :
    Goes b e final o ((do
      Execution.ret
      return none) ⟨o, .ofLists slots limit frames localBase callDepth⟩) := by
  obtain ⟨depth, g, below, -, hresults, hdrop, hrun⟩ :=
    hlabelled.ret o limit localBase callDepth (floor_add_le hfloor hslots)
  exact goes_landed hlimit h hlabelled hfloor hresults hslots hdrop hrun

/-! ### Blocks -/

/-- Opening a frame, with its parameters on top of the slots. -/
theorem goes_enter {kind : FrameKind} {type : BlockType} {sig : FuncType} {body : Expr}
    {label : List ValueType} (hkind : kind ≠ .call)
    (hlabel : label = if kind = .loop then sig.params else sig.results)
    (hsig : type.resolve? b.module.types = some sig)
    (htyped : SeqHasType (Γ.enter label) body sig.params sig.results)
    (hnesting : Expr.nesting body ≤ room)
    (hbelow : Runs b.module e final (some Γ) frames (lower ++ sig.results) localBase callDepth)
    (hlabelled : Labelled Γ frames floor (room + 1))
    (hfloor : floor ≤ e.operands.height + lower.length)
    (hlocals : LocalsAt e Γ.locals lower localBase)
    (hslots : Shows e (lower ++ sig.params) slots) :
    Goes b e final o ((do
      Execution.enter b kind type body
      return none) ⟨o, .ofLists slots limit frames localBase callDepth⟩) := by
  have hlength := hslots.length_eq
  rw [List.length_append] at hlength
  have hbase : slots.length - sig.params.length = e.operands.height + lower.length := by omega
  rw [Execution.bind_ok (Execution.enter_ofLists hsig (by omega)), hbase]
  generalize hf : Frame.enter kind body (e.operands.height + lower.length) sig.params.length
    sig.results.length = f
  have harity : f.branchArity = label.length := by
    rw [hlabel, ← hf]
    show (if kind = .loop then _ else _) = _
    split <;> rfl
  subst hf
  have hruns := Runs.block hbelow hkind rfl rfl hlabel (.begin rfl htyped rfl hnesting
    (hlabelled.enter hkind harity (Nat.le_refl _) hfloor)) hlocals
  exact ⟨Objects.later_refl o, steady_ofLists hruns hslots hlimit⟩

/-! ### Instructions without control -/

omit hlimit in
/-- The slots of a running frame are a state of the structured semantics at some place, and what is
typed there is typed on the machine. -/
theorem exists_place (limit callDepth : Nat) (frames : List Frame) (o : Objects)
    {ps : List ValueType} (hslots : Shows e (lower ++ ps) slots)
    (hlocals : LocalsAt e Γ.locals lower localBase) :
    ∃ (p : Place) (σ : Structured.State), Shaped Γ ps σ ∧ σ.objects = o ∧ p.slots σ = slots ∧
      (∀ σ', p.exec σ' = ⟨σ'.objects, .ofLists (p.slots σ') limit frames localBase callDepth⟩) ∧
      (∀ σ', e.operands.slots.items <:+ p.slots σ') ∧
      ∀ {rs σ'}, Shaped Γ rs σ' → Shows e (lower ++ rs) (p.slots σ') := by
  obtain ⟨before, after, rfl, hbase⟩ := hlocals
  obtain ⟨operands, _, rfl, hoperands, hbelow⟩ := Shows.append_iff.mp hslots
  obtain ⟨_, bottom, rfl, hmiddle, hbottom⟩ := Shows.append_iff.mp hbelow
  obtain ⟨outer, locals, rfl, houter, hlocals⟩ := ofTypes_append.mp hmiddle
  have hlength : bottom.length = localBase := hbottom.length_eq.trans hbase.symm
  refine ⟨⟨outer, bottom, limit, frames, callDepth⟩, ⟨operands, locals.reverse, o⟩,
    ⟨hoperands, hlocals⟩, rfl, ?_, fun σ' => ?_, fun σ' => ?_, fun {rs σ'} hσ' => ?_⟩
  · show operands ++ (outer ++ (locals.reverse.reverse ++ bottom)) = _
    rw [List.reverse_reverse, List.append_assoc]
  · rw [Place.exec, hlength]
  · refine hbottom.suffix.trans ?_
    rw [Place.slots, ← List.append_assoc, ← List.append_assoc]
    exact List.suffix_append _ _
  · have hlocals' : OfTypes Γ.locals σ'.locals.reverse := by
      rw [OfTypes, List.reverse_reverse]
      exact hσ'.locals
    have hshown := (hbottom.push (hlocals'.append houter)).push hσ'.operands
    rwa [List.append_assoc outer] at hshown

omit hlimit in
/-- Where the machine follows a safe part of a run of the structured semantics, the slots below its
operands and locals stay. -/
theorem follows_ofLists (limit callDepth : Nat) (frames : List Frame) {α : Type}
    {ps : List ValueType} {c : Execution.Step α} {d : Structured.Step α}
    {Q : α → Structured.State → Prop} (hf : ∀ (p : Place) σ, Follows p σ c d)
    (hs : ∀ {σ}, Shaped Γ ps σ → LinkedTo b o.tables σ.objects → Safely d σ Q)
    (hlinked : Linked b o) (hlocals : LocalsAt e Γ.locals lower localBase)
    (hslots : Shows e (lower ++ ps) slots) :
    (∃ a σ slots', c ⟨o, .ofLists slots limit frames localBase callDepth⟩ =
        .ok a ⟨σ.objects, .ofLists slots' limit frames localBase callDepth⟩ ∧ Q a σ ∧
      o.Later σ.objects ∧ ∀ {rs}, Shaped Γ rs σ → Shows e (lower ++ rs) slots') ∨
    ∃ (t : Trap) (o' : Objects) (slots' : List UInt64),
      c ⟨o, .ofLists slots limit frames localBase callDepth⟩ =
        .error t.error ⟨o', .ofLists slots' limit frames localBase callDepth⟩ ∧
      ¬ t.error.IsInternal ∧ o.Later o' ∧ e.operands.slots.items <:+ slots' := by
  obtain ⟨p, σ, hshaped, rfl, hσ, hexec, hsuffix, hshown⟩ :=
    exists_place limit callDepth frames o hslots hlocals
  have hstart : p.exec σ = ⟨σ.objects, .ofLists slots limit frames localBase callDepth⟩ := by
    rw [hexec, hσ]
  rcases (hf p σ).safely (hs hshaped ⟨hlinked, rfl⟩) with
    ⟨a, σ', -, hc, hQ, hlater⟩ | ⟨t, σ', hc, -, ht, hlater⟩
  · rw [hstart, hexec] at hc
    exact .inl ⟨a, σ', p.slots σ', hc, hQ, hlater, hshown⟩
  · rw [hstart, hexec] at hc
    exact .inr ⟨t, σ'.objects, p.slots σ', hc, ht, hlater, hsuffix σ'⟩

theorem goes_simple {op : Opcode} {imm : Immediate} {ps rs : List ValueType}
    (htyped : HasType Γ (.plain op imm) ps rs) (hsimple : isSimple op = true)
    (hmodule : Γ.module = b.module) (hlinked : Linked b o)
    (hbelow : Runs b.module e final Γ? frames (lower ++ rs) localBase callDepth)
    (hlocals : LocalsAt e Γ.locals lower localBase) (hslots : Shows e (lower ++ ps) slots) :
    Goes b e final o
      (Execution.execute b (.plain op imm)
        ⟨o, .ofLists slots limit frames localBase callDepth⟩) := by
  have hs {σ : Structured.State} (hσ : Shaped Γ ps σ) (hσo : LinkedTo b o.tables σ.objects) :
      Safely (Structured.simple b op imm) σ fun _ σ' => Shaped Γ rs σ' := by
    have hfits := hσ.fits hσo
    rw [← Nat.zero_add ps.length] at hfits
    have hyields : Structured.Yields (Structured.simple b op imm) σ fun _ => Shaped Γ ([] ++ rs) :=
      Structured.yields_simple htyped hsimple hmodule hσo.linked hσ
    have hsafely := (Structured.safely_simple htyped hsimple hmodule hfits).yields hyields
    exact hsafely.imp (fun ⟨a, σ', hrun, _, hshaped⟩ => ⟨a, σ', hrun, hshaped⟩) id
  rw [Structured.execute_simple hsimple]
  rcases follows_ofLists limit callDepth frames
    (fun p σ => Structured.follows_simple b op imm) hs hlinked hlocals hslots with
    ⟨_, σ, slots', hc, hshaped, hlater, hslots'⟩ | ⟨t, o', slots', hc, ht, hlater, hslots'⟩
  · rw [Execution.bind_ok hc]
    exact ⟨hlater, steady_ofLists hbelow (hslots' hshaped) hlimit⟩
  · rw [Execution.bind_error hc]
    exact ⟨hlater, ht, hslots', hbelow.suffix_frames, hlimit⟩

/-! ### Indirect calls -/

theorem goes_callIndirect {typeIndex : UInt32} {sig : FuncType} (hwired : Wired b)
    (howns : Owns b o.tables) (htable : 0 < b.module.count .table)
    (hsig : b.module.types[typeIndex.toNat]? = some sig) (hlinked : Linked b o)
    (hbegins : Begins Γ? frames (e.operands.height + lower.length))
    (hbelow : Runs b.module e final Γ? frames (lower ++ sig.results) localBase callDepth)
    (hlocals : LocalsAt e Γ.locals lower localBase)
    (hslots : Shows e (lower ++ (sig.params ++ [.i32])) slots) :
    Goes b e final o
      (Execution.callIndirect b typeIndex
        ⟨o, .ofLists slots limit frames localBase callDepth⟩) := by
  have hs {σ : Structured.State} (hσ : Shaped Γ (sig.params ++ [.i32]) σ)
      (hσo : LinkedTo b o.tables σ.objects) :
      Safely (Structured.selected b typeIndex) σ fun g σ' =>
        (Fits b o.tables Γ sig.params.length σ' ∧ g.type = sig ∧ Holds b σ'.objects g) ∧
          Shaped Γ sig.params σ' := by
    have hfits := hσ.fits hσo
    rw [List.length_append] at hfits
    exact (Structured.safely_selected hfits htable hsig).yields (Structured.yields_selected hσ)
  rw [Execution.callIndirect_eq]
  rcases follows_ofLists limit callDepth frames
    (fun p σ => Structured.follows_selected b typeIndex) hs hlinked hlocals hslots with
    ⟨g, σ, slots', hc, ⟨⟨hfits, htype, hholds⟩, hshaped⟩, hlater, hslots'⟩ |
    ⟨t, o', slots', hc, ht, hlater, hslots'⟩
  · rw [Execution.bind_ok hc]
    have hslots'' := hslots' hshaped
    cases hown : b.ownIndex? g with
    | some index =>
      obtain ⟨h, hh, hht⟩ := howns hfits.linked.tables hholds hown
      rw [← htype, ← hht] at hbelow hslots''
      exact (goes_call hlimit hwired hh hbegins hbelow hslots'').later hlater
    | none =>
      rw [← htype] at hbelow hslots''
      exact (goes_leave hlimit (.inr hholds) hbegins hbelow hslots'').later hlater
  · rw [Execution.bind_error hc]
    exact ⟨hlater, ht, hslots', hbelow.suffix_frames, hlimit⟩

/-! ### Instructions -/

/-- A typed instruction does what it may. -/
theorem goes_execute {i : Instr} {low start ws ps rs us : List ValueType}
    (hfront : Front b.module e final Γ f below low lower start us room localBase callDepth)
    (hnext : FrameTyped Γ { f with rest } below (e.operands.height + lower.length) room start
      (ws ++ rs) us)
    (hmodule : Γ.module = b.module) (hwired : Wired b) (howns : Owns b o.tables)
    (hlinked : Linked b o) (htyped : HasType Γ i ps rs) (hnesting : i.nesting ≤ room)
    (hslots : Shows e (lower ++ (ws ++ ps)) slots) :
    Goes b e final o
      (Execution.execute b i
        ⟨o, .ofLists slots limit ({ f with rest } :: below) localBase callDepth⟩) := by
  have hruns := hfront.runs hnext
  have hlabelled := hnext.labelled
  -- What the instruction takes lies above `lower ++ ws`, and what it leaves as well.
  have hfloor : e.operands.height + lower.length ≤ e.operands.height + (lower ++ ws).length := by
    rw [List.length_append]
    omega
  rw [← List.append_assoc] at hslots hruns
  have hlocals := hfront.locals.append ws
  have hbegins : Begins (some Γ) ({ f with rest } :: below)
      (e.operands.height + (lower ++ ws).length) := by
    rintro g hg -
    cases hg
    exact Nat.le_trans hfront.base_le hfloor
  have h := htyped
  cases htyped with
  | unreachable =>
    exact ⟨Objects.later_refl o, Error.not_isInternal .trap Code.unreachable (by decide),
      hslots.suffix, hruns.suffix_frames, hlimit⟩
  | block hsig hbody =>
    rw [← BlockType.resolve?_eq_some_iff, hmodule] at hsig
    obtain ⟨room, rfl, hroom⟩ := exists_room hnesting
    exact goes_enter hlimit (by decide) rfl hsig hbody hroom hruns hlabelled hfloor
      hlocals hslots
  | loop hsig hbody =>
    rw [← BlockType.resolve?_eq_some_iff, hmodule] at hsig
    obtain ⟨room, rfl, hroom⟩ := exists_room hnesting
    exact goes_enter hlimit (by decide) rfl hsig hbody hroom hruns hlabelled hfloor
      hlocals hslots
  | @ifElse _ type sig thenBody elseBody hsig hthen helse =>
    rw [← BlockType.resolve?_eq_some_iff, hmodule] at hsig
    obtain ⟨room, rfl, hroom⟩ := exists_room hnesting
    rw [← List.append_assoc] at hslots
    obtain ⟨slot, slots', rfl, hslots'⟩ := hslots.exists_cons
    have hbody : SeqHasType (Γ.enter sig.results)
        (if slot.toUInt32 ≠ 0 then thenBody else elseBody) sig.params sig.results := by
      split
      · exact hthen
      · exact helse
    refine Goes.congr (Execution.bind_ok (Execution.popU32_ofLists slot)) ?_
    refine goes_enter hlimit (by decide) rfl hsig hbody ?_ hruns hlabelled hfloor
      hlocals hslots'
    split <;> omega
  | @br _ depth label ts us hlabel =>
    rw [← List.append_assoc] at hslots
    exact goes_branch hlimit hruns hlabelled hfloor hlabel hslots
  | @brIf _ depth label hlabel =>
    rw [← List.append_assoc] at hslots
    obtain ⟨slot, slots', rfl, hslots'⟩ := hslots.exists_cons
    refine Goes.congr (Execution.bind_ok (Execution.popU32_ofLists slot)) ?_
    by_cases hcondition : slot.toUInt32 ≠ 0
    · rw [if_pos hcondition]
      rw [← List.append_nil (lower ++ ws)] at hslots'
      exact goes_branch hlimit hruns hlabelled hfloor hlabel hslots'
    · rw [if_neg hcondition]
      exact ⟨Objects.later_refl o, steady_ofLists hruns hslots' hlimit⟩
  | @brTable _ table default label ts us hdefault htable =>
    rw [← List.append_assoc, ← List.append_assoc] at hslots
    obtain ⟨slot, slots', rfl, hslots'⟩ := hslots.exists_cons
    refine Goes.congr (Execution.bind_ok (Execution.popU32_ofLists slot)) ?_
    have hlabel : Γ.labels[(table[slot.toUInt32.toNat]?.getD default).toNat]? = some label := by
      cases hentry : table[slot.toUInt32.toNat]? with
      | none => exact hdefault
      | some depth => exact htable depth (List.mem_of_getElem? hentry)
    exact goes_branch hlimit hruns hlabelled hfloor hlabel hslots'
  | ret =>
    rw [← List.append_assoc] at hslots
    exact goes_ret hlimit hruns hlabelled hfloor hslots
  | call hfunc hsig =>
    have htype := Module.funcType?_eq_some_iff.mpr ⟨_, hfunc, hsig⟩
    obtain ⟨g, hg, rfl⟩ := hwired.func (hmodule ▸ htype)
    exact goes_call hlimit hwired hg hbegins hruns hslots
  | callIndirect htable hsig =>
    exact goes_callIndirect hlimit hwired howns (hmodule ▸ htable) (hmodule ▸ hsig) hlinked
      hbegins hruns hlocals hslots
  | access _ hsig =>
    exact goes_simple hlimit h (Structured.isSimple_of_signature hsig) hmodule hlinked hruns
      hlocals hslots
  | operator _ hsig =>
    exact goes_simple hlimit h (Structured.isSimple_of_signature hsig) hmodule hlinked hruns
      hlocals hslots
  | _ => exact goes_simple hlimit h rfl hmodule hlinked hruns hlocals hslots

end Calls

/-! ### Activations -/

/-- A step of an activation that has frames of its own. -/
theorem advance_cases {t : Thread} (hwired : Wired b) (howns : Owns b o.tables)
    (hlinked : Linked b o) (h : Steady b.module e final [] t)
    (hframes : e.frames.height < t.frames.height) :
    (∃ x, Activation.advance b ⟨o, t⟩ = .ok none x ∧ o.Later x.objects ∧
      Steady b.module e final [] x.thread) ∨
    (∃ call site x, Activation.advance b ⟨o, t⟩ = .ok (some (call, site)) x ∧
      o.Later x.objects ∧ Steady b.module e final call.func.type.results x.thread ∧
      Reaches b x.objects call.func) ∨
    ∃ err x, Activation.advance b ⟨o, t⟩ = .error err x ∧ o.Later x.objects ∧ ¬ err.IsInternal ∧
      Above e x.thread := by
  obtain ⟨⟨-, -, hlimit⟩, Γ?, types, -, hruns, hslots⟩ := h
  rw [List.append_nil] at hruns
  cases Γ? with
  | none =>
    obtain ⟨hentry, -⟩ := hruns.closed
    rw [e.frames.height_eq, t.frames.height_eq, hentry] at hframes
    exact absurd hframes (Nat.lt_irrefl _)
  | some Γ =>
    have hmodule := hruns.module_eq rfl
    obtain ⟨f, below, low, lower, start, ts, us, room, hf, rfl, hfront, htyped⟩ := hruns.front
    rw [t.eq_ofLists, hf]
    cases hrest : f.rest with
    | nil =>
      have hresults := htyped.results
      have hend := htyped.rest
      rw [hrest] at hend
      obtain rfl := Typing.seqHasType_nil_iff.mp hend
      obtain ⟨between, rfl⟩ := hfront.low_prefix
      have hlength := hslots.length_eq
      rw [List.length_append, List.length_append] at hlength
      have hbase := hfront.base
      rw [Activation.advance_nil hrest (by omega)]
      rw [List.append_assoc] at hslots
      exact .inl ⟨_, rfl, Objects.later_refl o, hfront.left (hslots.unwound hbase hresults) hlimit⟩
    | cons i rest =>
      obtain ⟨ws, ps, rs, rfl, hfirst, hnesting, hnext⟩ := htyped.next hrest
      have hgoes := goes_execute (o := o) hlimit hfront hnext hmodule hwired howns hlinked hfirst
        hnesting hslots
      rw [Activation.advance_cons hrest]
      cases hexec : Execution.execute b i ⟨o, .ofLists t.operands.slots.items t.operands.limit
        ({ f with rest } :: below) t.localBase t.callDepth⟩ with
      | error err x =>
        rw [hexec] at hgoes
        obtain ⟨hlater, herr, habove⟩ := hgoes
        exact .inr (.inr ⟨_, x, rfl, hlater, herr, habove⟩)
      | ok call x =>
        rw [hexec] at hgoes
        cases call with
        | none =>
          obtain ⟨hlater, hsteady⟩ := hgoes
          exact .inl ⟨x, rfl, hlater, hsteady⟩
        | some call =>
          obtain ⟨hlater, hsteady, hreaches⟩ := hgoes
          exact .inr (.inl ⟨call, _, x, rfl, hlater, hsteady, hreaches⟩)

/-- An activation without frames of its own has its results on top of what it has found. -/
theorem Steady.closed {m : Module} {t : Thread} (h : Steady m e final [] t)
    (hframes : t.frames.height ≤ e.frames.height) :
    ∃ results, OfTypes final results ∧ t = .ofLists (results ++ e.operands.slots.items)
      e.operands.limit e.frames.items e.localBase e.callDepth := by
  obtain ⟨habove, Γ?, types, -, hruns, hslots⟩ := h
  rw [List.append_nil] at hruns
  cases Γ? with
  | some Γ =>
    have := hruns.lt_length
    rw [← t.frames.height_eq] at this
    omega
  | none =>
    obtain ⟨hfe, rfl, hbase, hdepth⟩ := hruns.closed
    obtain ⟨results, hresults, htyped⟩ := hslots
    refine ⟨results, htyped, ?_⟩
    rw [← hresults, ← habove.limit, ← hfe, ← hbase, ← hdepth]
    exact t.eq_ofLists

/-- It ends with these results, and leaves the thread as it has found it. -/
theorem finish_eq {t : Thread} {types : List ValueType}
    (h : Steady b.module e types [] t) (hframes : t.frames.height ≤ e.frames.height) :
    ∃ values, Activation.finish types ⟨o, t⟩ = .ok values ⟨o, e⟩ := by
  obtain ⟨results, hresults, rfl⟩ := h.closed hframes
  have hlength : types.length ≤ (results ++ e.operands.slots.items).length := by
    rw [List.length_append, hresults.length_eq]
    exact Nat.le_add_right _ _
  have hfinish := @Activation.finish_ofLists o _ e.operands.limit e.frames.items e.localBase
    e.callDepth types hlength
  rw [← hresults.length_eq, List.drop_left, ← e.eq_ofLists] at hfinish
  exact ⟨_, hfinish⟩

/-! ### Values from outside -/

/-- Arguments pass the check if they are of the parameter types. -/
theorem checkArgs_eq_ok_iff {type : FuncType} {given : List ValueType} :
    type.checkArgs given = .ok () ↔ given = type.params := by
  have heach {k : Nat} {gs ts : List ValueType} (hlength : gs.length = ts.length) :
      FuncType.checkEach k gs ts = .ok () ↔ gs = ts := by
    induction gs generalizing k ts with
    | nil =>
      obtain rfl := List.length_eq_zero_iff.mp hlength.symm
      exact ⟨fun _ => rfl, fun _ => rfl⟩
    | cons g gs ih =>
      cases ts with
      | nil => cases hlength
      | cons t ts =>
        rw [FuncType.checkEach]
        by_cases hg : g = t
        · rw [if_pos hg, ih (Nat.succ.inj hlength), hg, List.cons_inj_right]
        · rw [if_neg hg]
          exact ⟨fun h => (by cases h), fun h => absurd (List.cons.inj h).1 hg⟩
  rw [FuncType.checkArgs]
  by_cases hlength : given.length = type.params.length
  · rw [if_neg (not_not_intro hlength)]
    exact heach hlength
  · rw [if_pos hlength]
    exact ⟨fun h => (by cases h), fun h => absurd (congrArg List.length h) hlength⟩

theorem checkResults_eq_ok_iff {type : FuncType} {given : List ValueType} :
    type.checkResults given = .ok () ↔ given = type.results := by
  rw [FuncType.checkResults]
  by_cases h : given = type.results
  · rw [if_pos h]
    exact ⟨fun _ => h, fun _ => rfl⟩
  · rw [if_neg h]
    exact ⟨fun hrun => (nomatch hrun), fun heq => absurd heq h⟩

theorem not_isInternal_of_checkArgs {type : FuncType} {given : List ValueType} {err : Error}
    (h : type.checkArgs given = .error err) : ¬ err.IsInternal :=
  let ⟨_, he⟩ := FuncType.checkArgs_error h
  he ▸ Error.not_isInternal .runtime Code.argumentMismatch (by decide)

theorem not_isInternal_of_checkResults {type : FuncType} {given : List ValueType} {err : Error}
    (h : type.checkResults given = .error err) : ¬ err.IsInternal :=
  let ⟨_, he⟩ := FuncType.checkResults_error h
  he ▸ Error.not_isInternal .runtime Code.hostFailed (by decide)

/-- Arguments from outside become the operands of the first call. -/
theorem goes_entry {index : UInt32} {g : Func} {args : List Value} (hwired : Wired b)
    (hg : b.func index = .ok g) (hargs : args.map Value.type = g.type.params) :
    Goes b e g.type.results o (Activation.enter index args b ⟨o, e⟩) := by
  rcases Execution.pushAll_cases o e (args.map Value.toSlot) (Execution.call b index) with
    hrun | hrun
  · exact Goes.congr hrun ⟨Objects.later_refl o,
      Error.not_isInternal .trap Code.stackOverflow (by decide), List.suffix_refl _,
      List.suffix_refl _, rfl⟩
  · have hslots := (Shows.refl e).push (ofTypes_map_toSlot args)
    rw [hargs] at hslots
    have hbegins : Begins none e.frames.items (e.operands.height + ([] : List ValueType).length) :=
      fun _ _ hΓ => absurd rfl hΓ
    exact Goes.congr hrun (goes_call rfl hwired hg hbegins .done hslots)

/-- Results from outside go where the activation waits for them. -/
theorem resume_cases {t : Thread} {type : FuncType} (values : List Value)
    (h : Steady b.module e final type.results t) :
    (∃ t', Activation.resume type values ⟨o, t⟩ = .ok () ⟨o, t'⟩ ∧
      Steady b.module e final [] t') ∨
    ∃ err, Activation.resume type values ⟨o, t⟩ = .error err ⟨o, t⟩ ∧ ¬ err.IsInternal := by
  unfold Activation.resume
  cases hcheck : type.checkResults (values.map Value.type) with
  | error err => exact .inr ⟨err, rfl, not_isInternal_of_checkResults hcheck⟩
  | ok _ =>
    obtain ⟨habove, Γ?, types, -, hruns, hslots⟩ := h
    rcases Execution.pushAll_cases o t (values.map Value.toSlot) (pure ()) with hrun | hrun
    · exact .inr ⟨_, hrun, Error.not_isInternal .trap Code.stackOverflow (by decide)⟩
    · have hslots' := hslots.push (ofTypes_map_toSlot values)
      rw [checkResults_eq_ok_iff.mp hcheck] at hslots'
      exact .inl ⟨_, hrun, steady_ofLists hruns hslots' habove.limit⟩

end Wasm.Safety
