import Wasm.Proofs.Structured.Run
import Wasm.Proofs.Structured.Typed

/-!
# Typed frames

The invariant that the validation of bodies buys.  An activation finds a thread, its *entry*, and
what it adds to it is typed: `Runs` gives the types of all slots above the entry, frame by frame,
down to the frames of the entry.  They are the static types: of the frames' operands those at the
place in the body that the frame has come to, and below them those of the locals.

A branch out of a frame finds below it what is typed as well (`Front.land`), so the invariant is
kept by branches over any number of frames, by restarted loops and by returns.
-/

namespace Wasm.Safety

open Typing (Context SeqHasType HasType)
open Execution (left landed)

/-! ### Slots above an entry -/

/-- A stack of slots has those of a thread at its bottom, and above them canonical slots of the
types. -/
def Shows (e : Thread) (types : List ValueType) (slots : List UInt64) : Prop :=
  ∃ above, slots = above ++ e.operands.slots.items ∧ OfTypes types above

namespace Shows

variable {e : Thread} {ts us lower between : List ValueType} {slots above : List UInt64}

theorem refl (e : Thread) : Shows e [] e.operands.slots.items :=
  ⟨[], rfl, ofTypes_nil⟩

theorem suffix (h : Shows e ts slots) : e.operands.slots.items <:+ slots := by
  obtain ⟨above, rfl, -⟩ := h
  exact List.suffix_append _ _

theorem length_eq (h : Shows e ts slots) : slots.length = e.operands.height + ts.length := by
  obtain ⟨above, rfl, habove⟩ := h
  rw [List.length_append, habove.length_eq, ← e.operands.height_eq, Nat.add_comm]

theorem append_iff : Shows e (ts ++ us) slots ↔
    ∃ above below, slots = above ++ below ∧ OfTypes us above ∧ Shows e ts below := by
  constructor
  · rintro ⟨added, rfl, hadded⟩
    obtain ⟨above, below, rfl, habove, hbelow⟩ := ofTypes_append.mp hadded
    exact ⟨above, below ++ _, List.append_assoc .., habove, below, rfl, hbelow⟩
  · rintro ⟨above, _, rfl, habove, below, rfl, hbelow⟩
    exact ⟨above ++ below, (List.append_assoc ..).symm, hbelow.append habove⟩

theorem push (h : Shows e ts slots) (habove : OfTypes us above) :
    Shows e (ts ++ us) (above ++ slots) :=
  append_iff.mpr ⟨above, slots, rfl, habove, h⟩

/-- The top of the slots. -/
theorem exists_cons {t : ValueType} (h : Shows e (ts ++ [t]) slots) :
    ∃ slot slots', slots = slot :: slots' ∧ Shows e ts slots' := by
  obtain ⟨above, slots', rfl, habove, hslots'⟩ := append_iff.mp h
  obtain ⟨slot, rfl⟩ := List.length_eq_one_iff.mp habove.length_eq
  exact ⟨slot, slots', rfl, hslots'⟩

/-- Cutting the slots down to a height keeps the types below it, and those of the top. -/
theorem unwound {base keep : Nat} (h : Shows e (lower ++ (between ++ us)) slots)
    (hbase : base = e.operands.height + lower.length) (hkeep : keep = us.length) :
    Shows e (lower ++ us) (unwound base keep slots) := by
  obtain ⟨_, slots', rfl, habove, hslots'⟩ := append_iff.mp h
  obtain ⟨top, above, rfl, htop, -⟩ := ofTypes_append.mp habove
  have hlength : top.length = keep := htop.length_eq.trans hkeep.symm
  rw [hbase, ← hslots'.length_eq, unwound_append (by rw [List.length_append]; omega), ← hlength,
    List.take_left]
  exact hslots'.push htop

end Shows

/-! ### Frames -/

/-- What a frame has executed is typed, and so is what is left of it: the one leads from the
operands `start`, with which the frame began, to `ts`, and the other from these to the results
`us`. -/
structure FrameTyped (Γ : Context) (f : Frame) (below : List Frame) (floor room : Nat)
    (start ts us : List ValueType) : Prop where
  executed : ∃ before, f.body = before ++ f.rest ∧ SeqHasType Γ before start ts
  rest : SeqHasType Γ f.rest ts us
  results : f.results = us.length
  nesting : Expr.nesting f.body ≤ room
  labelled : Labelled Γ (f :: below) floor room

namespace FrameTyped

variable {Γ : Context} {f : Frame} {below : List Frame} {floor room : Nat}
  {start ts us : List ValueType}

/-- A frame at its beginning. -/
theorem begin (hrest : f.rest = f.body) (hbody : SeqHasType Γ f.body start us)
    (hresults : f.results = us.length) (hnesting : Expr.nesting f.body ≤ room)
    (hlabelled : Labelled Γ (f :: below) floor room) :
    FrameTyped Γ f below floor room start start us :=
  ⟨⟨[], hrest.symm, .nil⟩, hrest ▸ hbody, hresults, hnesting, hlabelled⟩

theorem restart (h : FrameTyped Γ f below floor room start ts us) :
    FrameTyped Γ f.restart below floor room start start us := by
  obtain ⟨before, hbody, hbefore⟩ := h.executed
  have htyped := hbefore.append h.rest
  rw [← hbody] at htyped
  exact begin rfl htyped h.results h.nesting (h.labelled.withRest _)

/-- The next instruction of a frame, and the frame past it. -/
theorem next {i : Instr} {rest : Expr} (h : FrameTyped Γ f below floor room start ts us)
    (hrest : f.rest = i :: rest) :
    ∃ ws ps rs, ts = ws ++ ps ∧ HasType Γ i ps rs ∧ i.nesting ≤ room ∧
      FrameTyped Γ { f with rest } below floor room start (ws ++ rs) us := by
  obtain ⟨before, hbody, hbefore⟩ := h.executed
  have htyped := h.rest
  have hnesting := h.nesting
  rw [hrest] at hbody htyped
  obtain ⟨ws, ps, rs, rfl, hfirst, hseq⟩ := Typing.seqHasType_cons_iff.mp htyped
  rw [hbody, Expr.nesting_append, Expr.nesting] at hnesting
  refine ⟨ws, ps, rs, rfl, hfirst, by omega, ⟨before ++ [i], ?_, hbefore.append (.cons hfirst .nil)⟩,
    hseq, h.results, h.nesting, h.labelled.withRest rest⟩
  rw [List.append_assoc]
  exact hbody

end FrameTyped

/-- The top frame of an activation begins no higher than that; where the activation has no frame of
its own, nothing is said. -/
def Begins (Γ? : Option Context) (frames : List Frame) (height : Nat) : Prop :=
  ∀ f ∈ frames.head?, Γ? ≠ none → f.base ≤ height

/-- The locals of the running call are among the slots above the entry. -/
def LocalsAt (e : Thread) (locals lower : List ValueType) (localBase : Nat) : Prop :=
  ∃ before after, lower = before ++ (locals ++ after) ∧
    localBase = e.operands.height + before.length

theorem LocalsAt.append {e : Thread} {locals lower : List ValueType} {localBase : Nat}
    (h : LocalsAt e locals lower localBase) (ts : List ValueType) :
    LocalsAt e locals (lower ++ ts) localBase := by
  obtain ⟨before, after, rfl, hbase⟩ := h
  refine ⟨before, after ++ ts, ?_, hbase⟩
  rw [List.append_assoc, List.append_assoc]

/-- With these frames, slots of these types above the entry, and these bases, an activation that
found the thread `e` is on its way to end with slots of the types `final` above it.  The context is
that of the top frame; there is none if all frames of the activation are closed. -/
inductive Runs (m : Module) (e : Thread) (final : List ValueType) :
    Option Context → List Frame → List ValueType → (localBase callDepth : Nat) → Prop where
  | done : Runs m e final none e.frames.items final e.localBase e.callDepth
  | block {Γ : Context} {label lower start ts us : List ValueType} {f : Frame} {below : List Frame}
      {room localBase callDepth : Nat}
      (hbelow : Runs m e final (some Γ) below (lower ++ us) localBase callDepth)
      (hkind : f.kind ≠ .call) (hbase : f.base = e.operands.height + lower.length)
      (hparams : f.params = start.length) (hlabel : label = if f.kind = .loop then start else us)
      (htyped : FrameTyped (Γ.enter label) f below f.base room start ts us)
      (hlocals : LocalsAt e Γ.locals lower localBase) :
      Runs m e final (some (Γ.enter label)) (f :: below) (lower ++ ts) localBase callDepth
  | call {Γ? : Option Context} {lower locals ts us : List ValueType} {f : Frame}
      {below : List Frame} {room callDepth : Nat}
      (hbelow : Runs m e final Γ? below (lower ++ us) f.savedLocalBase callDepth)
      (hkind : f.kind = .call) (hbase : f.base = e.operands.height + lower.length)
      (hbegins : Begins Γ? below f.base)
      (htyped : FrameTyped (.ofBody m locals us) f below (f.base + locals.length) room [] ts us) :
      Runs m e final (some (.ofBody m locals us)) (f :: below) (lower ++ locals ++ ts) f.base
        (callDepth + 1)

/-- A thread on which the contents of another one are still at the bottom. -/
structure Above (e t : Thread) : Prop where
  slots : e.operands.slots.items <:+ t.operands.slots.items
  frames : e.frames.items <:+ t.frames.items
  limit : t.operands.limit = e.operands.limit

/-- The thread is in order once values of the types `pending` have been pushed. -/
def Steady (m : Module) (e : Thread) (final pending : List ValueType) (t : Thread) : Prop :=
  Above e t ∧ ∃ Γ? types, Begins Γ? t.frames.items t.operands.height ∧
    Runs m e final Γ? t.frames.items (types ++ pending) t.localBase t.callDepth ∧
    Shows e types t.operands.slots.items

/-- Cutting a thread back restores what it stands on. -/
theorem Above.cutBack {e t : Thread} (h : Above e t) : t.cutBack e = e := by
  have hheight {α : Type} {s s' : Stack α} (hsuffix : s.items <:+ s'.items) :
      s'.truncate s.height = s := by
    obtain ⟨l, hl⟩ := hsuffix
    apply Stack.eq_of_items_eq
    rw [Stack.items_truncate, s'.height_eq, s.height_eq, ← hl, List.length_append,
      Nat.add_sub_cancel, List.drop_left]
  rcases e with ⟨⟨eslots, elimit⟩, eframes, elocalBase, ecallDepth⟩
  rcases t with ⟨⟨slots, limit⟩, frames, localBase, callDepth⟩
  obtain ⟨hslots, hframes, hlimit⟩ := h
  obtain rfl : limit = elimit := hlimit
  have hslots' : slots.truncate eslots.height = eslots := hheight hslots
  have hframes' : frames.truncate eframes.height = eframes := hheight hframes
  show Thread.mk ⟨slots.truncate eslots.height, limit⟩ (frames.truncate eframes.height) _ _ = _
  rw [hslots', hframes']

variable {m : Module} {e t : Thread} {final types : List ValueType}
  {localBase callDepth limit : Nat} {Γ : Context} {Γ? : Option Context} {f g : Frame}
  {frames below : List Frame} {slots : List UInt64} {o : Objects}

namespace Runs

theorem suffix_frames (h : Runs m e final Γ? frames types localBase callDepth) :
    e.frames.items <:+ frames := by
  induction h with
  | done => exact List.suffix_refl _
  | block _ _ _ _ _ _ _ ih => exact ih.trans (List.suffix_cons _ _)
  | call _ _ _ _ _ ih => exact ih.trans (List.suffix_cons _ _)

/-- Without a frame of its own an activation is at its end. -/
theorem closed (h : Runs m e final none frames types localBase callDepth) :
    frames = e.frames.items ∧ types = final ∧ localBase = e.localBase ∧
      callDepth = e.callDepth := by
  cases h
  exact ⟨rfl, rfl, rfl, rfl⟩

/-- An activation has frames of its own as long as it runs. -/
theorem lt_length (h : Runs m e final (some Γ) frames types localBase callDepth) :
    e.frames.height < frames.length := by
  rw [e.frames.height_eq]
  cases h with
  | block hbelow => exact Nat.lt_succ_of_le hbelow.suffix_frames.length_le
  | call hbelow => exact Nat.lt_succ_of_le hbelow.suffix_frames.length_le

theorem module_eq {context : Option Context}
    (h : Runs m e final context frames types localBase callDepth) (hΓ : context = some Γ) :
    Γ.module = m := by
  induction h generalizing Γ with
  | done => cases hΓ
  | block _ _ _ _ _ _ _ ih =>
    cases hΓ
    have hmodule := ih rfl
    exact hmodule
  | call =>
    cases hΓ
    rfl

theorem begins (h : Runs m e final Γ? frames types localBase callDepth) :
    Begins Γ? frames (e.operands.height + types.length) := by
  intro f hf hΓ
  cases h with
  | done => exact absurd rfl hΓ
  | block _ _ hbase =>
    cases hf
    rw [hbase, List.length_append]
    omega
  | call _ _ hbase =>
    cases hf
    rw [hbase, List.length_append, List.length_append]
    omega

end Runs

/-- The lists of a thread that waits for `pending` values. -/
theorem waiting_ofLists {pending : List ValueType}
    (hbegins : Begins Γ? frames (e.operands.height + types.length))
    (h : Runs m e final Γ? frames (types ++ pending) localBase callDepth)
    (hslots : Shows e types slots) (hlimit : limit = e.operands.limit) :
    Steady m e final pending (.ofLists slots limit frames localBase callDepth) := by
  rw [← hslots.length_eq] at hbegins
  exact ⟨⟨hslots.suffix, h.suffix_frames, hlimit⟩, Γ?, types, hbegins, h, hslots⟩

/-- The lists of a thread that is in order. -/
theorem steady_ofLists (h : Runs m e final Γ? frames types localBase callDepth)
    (hslots : Shows e types slots) (hlimit : limit = e.operands.limit) :
    Steady m e final [] (.ofLists slots limit frames localBase callDepth) := by
  have hbegins := h.begins
  rw [← List.append_nil types] at h
  exact waiting_ofLists hbegins h hslots hlimit

/-! ### The top frame -/

/-- The top frame `f` of a running activation: above `low` it has its locals, if it is that of a
call, and above `lower` its operands, which it began with `start` and is to leave with `us`.
Whatever typed rest is put there, the frames are in order; and what it leaves is in order as
well. -/
structure Front (m : Module) (e : Thread) (final : List ValueType) (Γ : Context) (f : Frame)
    (below : List Frame) (low lower start us : List ValueType) (room localBase callDepth : Nat) :
    Prop where
  runs : ∀ {rest : Expr} {ts : List ValueType},
    FrameTyped Γ { f with rest } below (e.operands.height + lower.length) room start ts us →
    Runs m e final (some Γ) ({ f with rest } :: below) (lower ++ ts) localBase callDepth
  left : ∀ {slots : List UInt64} {limit : Nat} {o : Objects},
    Shows e (low ++ us) (unwound f.base f.results slots) → limit = e.operands.limit →
    Steady m e final [] (left f o slots limit below localBase callDepth).thread
  base : f.base = e.operands.height + low.length
  low_prefix : low <+: lower
  label : Γ.labels[0]? = some (if f.kind = .loop then start else us)
  loop : f.kind = .loop → f.params = start.length ∧ low = lower
  locals : LocalsAt e Γ.locals lower localBase

theorem Front.base_le {low lower start us : List ValueType} {room : Nat}
    (h : Front m e final Γ f below low lower start us room localBase callDepth) :
    f.base ≤ e.operands.height + lower.length := by
  have hle := h.low_prefix.length_le
  rw [h.base]
  omega

/-- The top frame of a running activation. -/
theorem Runs.front (h : Runs m e final (some Γ) frames types localBase callDepth) :
    ∃ f below low lower start ts us room, frames = f :: below ∧ types = lower ++ ts ∧
      Front m e final Γ f below low lower start us room localBase callDepth ∧
      FrameTyped Γ f below (e.operands.height + lower.length) room start ts us := by
  cases h with
  | @block Γ label lower start ts us f below room localBase callDepth hbelow hkind hbase hparams
      hlabel htyped hlocals =>
    refine ⟨f, below, lower, lower, start, ts, us, room, rfl, rfl,
      ⟨fun {rest ts'} hrest => ?_, fun {slots limit o} hslots hlimit => ?_, hbase,
        List.prefix_refl _, congrArg some hlabel, fun _ => ⟨hparams, rfl⟩, hlocals⟩, hbase ▸ htyped⟩
    · rw [← hbase] at hrest
      exact .block (f := { f with rest }) hbelow hkind hbase hparams hlabel hrest hlocals
    · rw [Execution.left, if_neg hkind, if_neg hkind]
      exact steady_ofLists hbelow hslots hlimit
  | @call Γ? lower locals ts us f below room callDepth hbelow hkind hbase hbegins htyped =>
    have hfloor : f.base + locals.length = e.operands.height + (lower ++ locals).length := by
      rw [hbase, List.length_append, Nat.add_assoc]
    refine ⟨f, below, lower, lower ++ locals, [], ts, us, room, rfl, rfl,
      ⟨fun {rest ts'} hrest => ?_, fun {slots limit o} hslots hlimit => ?_, hbase,
        List.prefix_append _ _, ?_, fun hloop => ?_, lower, [], ?_, hbase⟩, hfloor ▸ htyped⟩
    · rw [← hfloor] at hrest
      exact .call (f := { f with rest }) hbelow hkind hbase hbegins hrest
    · rw [Execution.left, if_pos hkind, if_pos hkind]
      exact steady_ofLists hbelow hslots hlimit
    · rw [if_neg (by rw [hkind]; decide)]
      rfl
    · cases hkind.symm.trans hloop
    · rw [List.append_nil]
      rfl

/-! ### Landing -/

/-- A branch lands where the thread is in order again. -/
theorem Front.land {low lower start us ts label between : List ValueType} {room : Nat}
    (h : Front m e final Γ f below low lower start us room localBase callDepth)
    (htyped : FrameTyped Γ f below (e.operands.height + lower.length) room start ts us)
    (hlabel : Γ.labels[0]? = some label) (hslots : Shows e (low ++ (between ++ label)) slots)
    (hlimit : limit = e.operands.limit) :
    Steady m e final [] (landed f o slots limit below localBase callDepth).thread := by
  obtain rfl : _ = label := Option.some.inj (h.label.symm.trans hlabel)
  by_cases hkind : f.kind = .loop
  · rw [if_pos hkind] at hslots
    obtain ⟨hparams, rfl⟩ := h.loop hkind
    rw [landed, if_pos hkind]
    exact steady_ofLists (h.runs htyped.restart) (hslots.unwound h.base hparams) hlimit
  · rw [if_neg hkind] at hslots
    rw [landed, if_neg hkind]
    exact h.left (hslots.unwound h.base htyped.results) hlimit

/-- The frames from that of a label on are those of a running activation as well, and what is below
that frame is below all the others. -/
theorem Runs.drop {depth : Nat} {label : List ValueType}
    (h : Runs m e final (some Γ) frames types localBase callDepth)
    (hlabel : Γ.labels[depth]? = some label) (hdrop : frames.drop depth = g :: below) :
    ∃ Γ' types', Runs m e final (some Γ') (g :: below) types' localBase callDepth ∧
      Γ'.labels[0]? = some label ∧ ∀ low, low <+: types' →
        e.operands.height + low.length = g.base → low <+: types := by
  induction depth generalizing Γ frames types with
  | zero =>
    cases hdrop
    exact ⟨Γ, types, h, hlabel, fun _ hlow _ => hlow⟩
  | succ depth ih =>
    cases h with
    | @block Γ label' lower start ts us f below' room localBase callDepth hbelow hkind hbase hparams
        hlabel' htyped hlocals =>
      obtain ⟨Γ', types', hruns, hlabel'', hlow⟩ := ih hbelow hlabel hdrop
      refine ⟨Γ', types', hruns, hlabel'', fun low hprefix hlength => ?_⟩
      obtain ⟨g', below'', hdrop', -, hg⟩ := htyped.labelled.frame hlabel
      have hsame : g' :: below'' = g :: below := hdrop'.symm.trans hdrop
      cases hsame
      have hle : low.length ≤ lower.length := by omega
      have hlower : low <+: lower :=
        List.prefix_of_prefix_length_le (hlow low hprefix hlength) (List.prefix_append _ _) hle
      exact hlower.trans (List.prefix_append _ _)
    | call => cases hlabel

/-- A branch over any number of frames lands where the thread is in order again. -/
theorem Runs.land {depth : Nat} {label lower between ts : List ValueType}
    (h : Runs m e final (some Γ) frames (lower ++ ts) localBase callDepth)
    (hlabel : Γ.labels[depth]? = some label) (hdrop : frames.drop depth = g :: below)
    (hbase : g.base ≤ e.operands.height + lower.length)
    (hslots : Shows e (lower ++ (between ++ label)) slots) (hlimit : limit = e.operands.limit) :
    Steady m e final [] (landed g o slots limit below localBase callDepth).thread := by
  obtain ⟨Γ', types', hruns, hlabel', hlow⟩ := h.drop hlabel hdrop
  obtain ⟨g', below', low, lower', start, ts', us, room, hframes, rfl, hfront, htyped⟩ := hruns.front
  cases hframes
  have hprefix := hlow low (hfront.low_prefix.trans (List.prefix_append _ _)) hfront.base.symm
  have hle : low.length ≤ lower.length := by
    have := hfront.base
    omega
  obtain ⟨above, rfl⟩ :=
    List.prefix_of_prefix_length_le hprefix (List.prefix_append lower ts) hle
  rw [List.append_assoc, ← List.append_assoc above] at hslots
  exact hfront.land htyped hlabel' hslots hlimit

end Wasm.Safety
