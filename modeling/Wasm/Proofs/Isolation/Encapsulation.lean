import Wasm.Proofs.Isolation.Twins
import Wasm.Proofs.Safety.Recovery

/-!
# Encapsulation

What a call of an instance can read and write is known before it begins: the memories and globals of
the instance itself, and those of the owners of functions that it, or an instance so found, has
imported or has in its table (`Store.reach`).  The call leaves everything else alone, it depends on
nothing else, and calls that have nothing in reach together can be made in either order
(`encapsulation`).
-/

namespace Wasm

open Safety

/-! ### What is in reach -/

/-- The instances whose code a call of an instance may run. -/
inductive Store.Reached (s : Store) (a : Address) : Address → Prop where
  | self : Reached s a a
  | call {a' owner : Address} {b : Bindings} {type : FuncType} {index : UInt32}
      (h : Reached s a a') (hb : s.bindings? a' = some b)
      (hf : Reaches b s.objects (.owned type owner index)) : Reached s a owner

/-- What an instance has in its reach. -/
def Store.reach (s : Store) (a : Address) : Realm where
  memories m := ∃ a' b, s.Reached a a' ∧ s.bindings? a' = some b ∧ b.memory = some m
  tables t := ∃ a' b, s.Reached a a' ∧ s.bindings? a' = some b ∧ b.table = some t
  globals g := ∃ a' b, s.Reached a a' ∧ s.bindings? a' = some b ∧ g ∈ b.globals
  instances := s.Reached a

/-- No instance in reach can call a function of the host. -/
def Store.Hostless (s : Store) (a : Address) : Prop :=
  ∀ {a' : Address} {b : Bindings} {type : FuncType} {run : List Value → Proc}, s.Reached a a' →
    s.bindings? a' = some b → ¬ Reaches b s.objects (.host type run)

/-- Two stores that are the same as far as an instance reaches. -/
structure Store.AgreeFor (a : Address) (s s' : Store) : Prop where
  bindings : ∀ {a' : Address}, s.Reached a a' → s'.bindings? a' = s.bindings? a'
  objects : s.objects.Agree (s.reach a).toRegion s'.objects

/-- Two regions share neither memories nor globals. -/
structure Region.Disjoint (v v' : Region) : Prop where
  memories : ∀ {a : Address}, v.memories a → ¬ v'.memories a
  globals : ∀ {a : Address}, v.globals a → ¬ v'.globals a

/-! ### Calls from outside -/

/-- How a function of an instance is called from outside: by its exported name, by its index, or
through a reference, on behalf of a native module. -/
inductive Invocation where
  | named (name : String) (args : List Value)
  | indexed (index : UInt32) (args : List Value)
  | referred (caller : NativeModule) (type : FuncType) (index : UInt32) (args : List Value)

namespace Invocation

/-- The machine at the beginning of the call. -/
def begin (p : Invocation) (s : Store) (a : Address) : Machine :=
  match p with
  | .named name args => Machine.invokeHandle s a name args []
  | .indexed index args => Machine.invokeIndex s a true index args []
  | .referred caller type index args =>
    ⟨s, .call (.native caller) ⟨.owned type a index, args⟩, []⟩

/-- The call of a function of an instance. -/
def run (p : Invocation) (fuel : Nat) (s : Store) (a : Address) :
    Option (Except Error (List Value) × Store) :=
  match p with
  | .named name args => s.invoke fuel a name args
  | .indexed index args => s.invokeIndex fuel a index args
  | .referred caller type index args => s.callFunc fuel caller (.owned type a index) args

theorem run_eq_begin (p : Invocation) (fuel : Nat) (s : Store) (a : Address) :
    p.run fuel s a = (p.begin s a).run fuel := by
  cases p <;> rfl

end Invocation

variable {w : Realm} {s s' t : Store} {a b : Address} {p q : Invocation} {fuel : Nat}
  {r : Except Error (List Value)}

theorem paired_begin (p : Invocation) (h : s.Twin w s') (ha : w.instances a) :
    Paired w s s' (p.begin s a) (p.begin s' a) := by
  have hnone : ∀ x ∈ ([] : List Waiting), x.Inside w := nofun
  cases p with
  | indexed index args => exact paired_invokeIndex _ _ _ h ha hnone
  | referred caller type index args => exact ⟨rfl, rfl, ha, hnone, h.after⟩
  | named name args =>
    have hbusy : s'.isBusy a = s.isBusy a := by
      rw [Store.isBusy, Store.isBusy, h.instances ha]
    show Paired w s s' (Machine.invokeHandle s a name args [])
      (Machine.invokeHandle s' a name args [])
    unfold Machine.invokeHandle
    rw [hbusy]
    split
    · exact paired_returned _ h hnone
    · unfold Machine.invokeExport
      rw [h.instances ha]
      split
      · exact paired_returned _ h hnone
      · split
        · exact paired_returned _ h hnone
        · exact paired_invokeIndex _ _ _ h ha hnone

/-! ### Calls in a resting store -/

/-- A call that comes to its end is one by index, or it has failed before it began. -/
theorem Invocation.run_cases (hrun : p.run fuel s a = some (r, t)) : t = s ∨
    ∃ index args fuel, (Machine.invokeIndex s a true index args []).run fuel = some (r, t) := by
  have hfailed {e : Error} (h : Machine.run fuel ⟨s, .returned (.error e), []⟩ = some (r, t)) :
      t = s := by
    rw [run_returned] at h
    cases h
    rfl
  cases p with
  | indexed index args => exact .inr ⟨index, args, fuel, hrun⟩
  | named name args =>
    replace hrun : (Machine.invokeHandle s a name args []).run fuel = some (r, t) := hrun
    rcases invokeHandle_cases s a name args [] with ⟨e, h⟩ | ⟨index, h⟩ <;> rw [h] at hrun
    · exact .inl (hfailed hrun)
    · exact .inr ⟨index, args, fuel, hrun⟩
  | referred caller type index args =>
    cases fuel with
    | zero => cases hrun
    | succ fuel =>
      replace hrun : (if s.isBusy a = true then ⟨s, .returned (.error (ownerExecuting index)), []⟩
        else Machine.invokeIndex s a true index args []).run fuel = some (r, t) := hrun
      split at hrun
      · rw [run_returned] at hrun
        cases hrun
        exact .inl rfl
      · exact .inr ⟨index, args, fuel, hrun⟩

/-- After the call nothing runs again. -/
theorem Invocation.resting (hsound : Sound s) (h : Resting s)
    (hrun : p.run fuel s a = some (r, t)) : Sound t ∧ Resting t := by
  rcases run_cases hrun with rfl | ⟨index, args, fuel, hindex⟩
  · exact ⟨hsound, h⟩
  · exact (regular_invokeIndex hsound h a index args).run hindex

/-! ### Calls that reach the same -/

theorem Store.closed_reach (h : s.Hostless a) : s.Closed (s.reach a) := by
  refine ⟨fun {a' b} ha hb => ?_, fun {a' b f} ha hb hf => ?_⟩
  · exact ⟨fun hm => ⟨a', b, ha, hb, hm⟩, fun ht => ⟨a', b, ha, hb, ht⟩,
      fun hg => ⟨a', b, ha, hb, hg⟩⟩
  · cases f with
    | host type run => exact absurd hf (h ha hb)
    | owned type owner index => exact .call ha hb hf

/-- Stores in which nothing runs. -/
theorem Store.AgreeFor.twin (h : s.AgreeFor a s') (hhosts : s.Hostless a) (hs : Resting s)
    (hs' : Resting s') : s.Twin (s.reach a) s' := by
  refine ⟨fun {a'} ha' => ?_, h.objects, closed_reach hhosts⟩
  rw [hs.instance?_eq, hs'.instance?_eq, h.bindings ha']

theorem Store.agreeFor_refl (a : Address) (s : Store) : s.AgreeFor a s :=
  ⟨fun _ => rfl, Objects.agree_refl _ _⟩

/-- What is confined to another region leaves the reach of an instance as it was. -/
theorem Store.agreeFor_of_confined {v : Region} (h : s.Confined v t)
    (hdisjoint : v.Disjoint (s.reach a).toRegion) : s.AgreeFor a t := by
  refine ⟨fun {a'} _ => h.stays.bindings a', fun {m} hm => ?_, fun _ => ?_, fun {g} hg => ?_⟩
  · exact h.objects.memories fun hv => hdisjoint.memories hv hm
  · rw [h.objects.tables]
  · exact h.objects.globals fun hv => hdisjoint.globals hv hg

theorem Region.Disjoint.symm {v v' : Region} (h : v.Disjoint v') : v'.Disjoint v :=
  ⟨fun hm' hm => h.memories hm hm', fun hg' hg => h.globals hg hg'⟩

/-- Calls in two stores that agree as far as the instance reaches. -/
theorem Invocation.sameEnd (p : Invocation) (hagree : s.AgreeFor a s') (hhosts : s.Hostless a)
    (hs : Resting s) (hs' : Resting s') (fuel : Nat) :
    SameEnd (Store.After (s.reach a) s s') (p.run fuel s a) (p.run fuel s' a) := by
  rw [run_eq_begin, run_eq_begin]
  exact (paired_begin p (hagree.twin hhosts hs hs') .self).run fuel

theorem Invocation.confined (hhosts : s.Hostless a) (hs : Resting s)
    (hrun : p.run fuel s a = some (r, t)) : s.Confined (s.reach a).toRegion t := by
  have hsame := p.sameEnd (Store.agreeFor_refl a s) hhosts hs hs fuel
  rw [hrun] at hsame
  obtain ⟨_, -, hafter⟩ := hsame.left
  exact hafter.left

/-! ### Two calls in either order -/

/-- Two changes in places that are apart come to the same in either order. -/
theorem array_eq_of_apart {α : Type} {p p' : Address → Prop} {x x₁ x₂ x₁₂ x₂₁ : Array α}
    (hapart : ∀ {k}, p k → ¬ p' k) (h₁ : ∀ {k}, ¬ p k → x₁[k]? = x[k]?)
    (h₂ : ∀ {k}, ¬ p' k → x₂[k]? = x[k]?) (h₁₂ : ∀ {k}, ¬ p' k → x₁₂[k]? = x₁[k]?)
    (h₂₁ : ∀ {k}, ¬ p k → x₂₁[k]? = x₂[k]?) (hagree : ∀ {k}, p k → x₂₁[k]? = x₁[k]?)
    (hagree' : ∀ {k}, p' k → x₁₂[k]? = x₂[k]?) : x₂₁ = x₁₂ := by
  refine Array.ext_getElem? fun k => ?_
  by_cases hp : p k
  · rw [hagree hp, h₁₂ (hapart hp)]
  · rw [h₂₁ hp]
    by_cases hp' : p' k
    · rw [hagree' hp']
    · rw [h₁₂ hp', h₁ hp, h₂ hp']

theorem Objects.eq_of_confined {v v' : Region} {o o₁ o₂ o₁₂ o₂₁ : Objects}
    (hdisjoint : v.Disjoint v') (h₁ : o.Confined v o₁) (h₂ : o.Confined v' o₂)
    (h₁₂ : o₁.Confined v' o₁₂) (h₂₁ : o₂.Confined v o₂₁) (hagree : o₁.Agree v o₂₁)
    (hagree' : o₂.Agree v' o₁₂) : o₂₁ = o₁₂ := by
  have hmemories : o₂₁.memories = o₁₂.memories :=
    array_eq_of_apart hdisjoint.memories h₁.memories h₂.memories h₁₂.memories h₂₁.memories
      hagree.memories hagree'.memories
  have hglobals : o₂₁.globals = o₁₂.globals :=
    array_eq_of_apart hdisjoint.globals h₁.globals h₂.globals h₁₂.globals h₂₁.globals
      hagree.globals hagree'.globals
  have htables : o₂₁.tables = o₁₂.tables := by
    rw [h₂₁.tables, h₂.tables, h₁₂.tables, h₁.tables]
  obtain ⟨memories, tables, globals⟩ := o₂₁
  obtain rfl : memories = _ := hmemories
  obtain rfl : tables = _ := htables
  obtain rfl : globals = _ := hglobals
  rfl

/-- Two calls that have nothing in reach together, made in either order. -/
theorem Store.eq_of_confined {v v' : Region} {s₁ s₂ s₁₂ s₂₁ : Store} (hdisjoint : v.Disjoint v')
    (h₁ : s.Confined v s₁) (h₂ : s.Confined v' s₂) (h₁₂ : s₁.Confined v' s₁₂)
    (h₂₁ : s₂.Confined v s₂₁) (hagree : s₁.objects.Agree v s₂₁.objects)
    (hagree' : s₂.objects.Agree v' s₁₂.objects) (hs : Resting s) (hs₁₂ : Resting s₁₂)
    (hs₂₁ : Resting s₂₁) : s₂₁ = s₁₂ := by
  have hobjects : s₂₁.objects = s₁₂.objects := Objects.eq_of_confined hdisjoint h₁.objects
    h₂.objects h₁₂.objects h₂₁.objects hagree hagree'
  have hinstances : s₂₁.instances = s₁₂.instances := by
    rw [hs.instances_eq hs₂₁ (h₂.stays.trans h₂₁.stays),
      hs.instances_eq hs₁₂ (h₁.stays.trans h₁₂.stays)]
  have hhandles : s₂₁.handles = s₁₂.handles := by
    rw [h₂₁.handles, h₂.handles, h₁₂.handles, h₁.handles]
  have hevents : s₂₁.events = s₁₂.events := by
    rw [h₂₁.events, h₂.events, h₁₂.events, h₁.events]
  obtain ⟨objects, instances, handles, events⟩ := s₂₁
  obtain rfl : objects = _ := hobjects
  obtain rfl : instances = _ := hinstances
  obtain rfl : handles = _ := hhandles
  obtain rfl : events = _ := hevents
  rfl

namespace Isolation

/-- A call of an instance from which no function of the host can be called, in a store that can be
reached, leaves alone, at every step and whether it succeeds or fails, every memory and every global
that it has not in its reach, and every table.  In any other store that can be reached and is the
same as far as the instance reaches, the call has the same result, if any, and leaves the same in
its reach.  And when another such call of an instance has nothing in its reach together with this
one, it has the same result before and after this one, and both have the same results and leave the
same store in either order. -/
theorem encapsulation {known : List FuncRef} {s : Store} {r : Except Error (List Value)}
    {a : Address} (h : Reachable known ⟨s, .returned r, []⟩) (hhosts : s.Hostless a)
    (p : Invocation) :
    (∀ {m : Machine}, Within [] (p.begin s a) m →
      s.objects.Confined (s.reach a).toRegion m.store.objects) ∧
    (∀ {known' : List FuncRef} {s' : Store} {r' : Except Error (List Value)},
      Reachable known' ⟨s', .returned r', []⟩ → s.AgreeFor a s' → ∀ fuel : Nat,
      SameEnd (fun t t' => t.objects.Agree (s.reach a).toRegion t'.objects) (p.run fuel s a)
        (p.run fuel s' a)) ∧
    ∀ {b : Address} (q : Invocation), s.Hostless b →
      (s.reach a).toRegion.Disjoint (s.reach b).toRegion →
      ∀ {n : Nat} {ra : Except Error (List Value)} {sa : Store}, p.run n s a = some (ra, sa) →
        (∀ k : Nat, (q.run k sa b).map Prod.fst = (q.run k s b).map Prod.fst) ∧
        ∀ {k : Nat} {rb : Except Error (List Value)} {sab : Store},
          q.run k sa b = some (rb, sab) →
          ∃ sb : Store, q.run k s b = some (rb, sb) ∧ p.run n sb a = some (ra, sab) := by
  have hs := h.resting
  obtain ⟨⟨_, hsound, -⟩, -⟩ := h.orderly
  refine ⟨fun {m} hwithin => ?_, fun {known' s' r'} h' hagree fuel => ?_,
    fun {b} q hhosts' hdisjoint {n ra sa} hrun => ?_⟩
  · have htwin := (Store.agreeFor_refl a s).twin hhosts hs hs
    exact ((paired_begin p htwin .self).within hwithin).after.left.objects
  · exact (p.sameEnd hagree hhosts hs h'.resting fuel).mono fun hafter => hafter.twin.objects
  · obtain ⟨hsoundA, hsa⟩ := Invocation.resting hsound hs hrun
    have hconfined := p.confined hhosts hs hrun
    have hsame := q.sameEnd (Store.agreeFor_of_confined hconfined hdisjoint) hhosts' hs hsa
    refine ⟨fun k => (hsame k).map_fst, fun {k rb sab} hrunAB => ?_⟩
    have hsameB := hsame k
    rw [hrunAB] at hsameB
    obtain ⟨sb, hrunB, hafterB⟩ := hsameB.right
    obtain ⟨hsoundB, hsb⟩ := Invocation.resting hsound hs hrunB
    -- The second call has left the reach of the first one as it was, so the first one goes the same.
    have hsameA := p.sameEnd (Store.agreeFor_of_confined hafterB.left hdisjoint.symm) hhosts hs hsb n
    rw [hrun] at hsameA
    obtain ⟨sba, hrunBA, hafterA⟩ := hsameA.left
    have heq : sba = sab := Store.eq_of_confined hdisjoint hconfined hafterB.left hafterB.right
      hafterA.right hafterA.twin.objects hafterB.twin.objects hs
      (Invocation.resting hsoundA hsa hrunAB).2 (Invocation.resting hsoundB hsb hrunBA).2
    exact ⟨sb, hrunB, heq ▸ hrunBA⟩

/-! ### Two counters -/

/-- A module with a global of its own and a function `n`, which adds 1 to it. -/
def counterInput : List UInt8 :=
  [0x00, 0x61, 0x73, 0x6D, 1, 0, 0, 0, 1, 5, 1, 0x60, 0, 1, 0x7F, 3, 2, 1, 0,
    6, 6, 1, 0x7F, 1, 0x41, 0, 0x0B, 7, 5, 1, 1, 0x6E, 0, 0,
    10, 13, 1, 11, 0, 0x23, 0, 0x41, 1, 0x6A, 0x24, 0, 0x23, 0, 0x0B]

def counterBody : Expr :=
  [.plain .globalGet (.index 0), .plain (.const .i32) (.value (.i32 1)),
    .plain (.intBinary .w32 .add) .none, .plain .globalSet (.index 0), .plain .globalGet (.index 0)]

def counterModule : Module :=
  { types := [⟨[], [.i32]⟩]
    functions := [0]
    globals := [⟨⟨.i32, true⟩, [.plain (.const .i32) (.value (.i32 0))]⟩]
    exports := [⟨"n", .func, 0⟩]
    codes := [⟨[], counterBody⟩] }

def counter (a : Address) : Instance :=
  ⟨⟨a, counterModule, {}, #[.defined ⟨[], [.i32]⟩ 0 counterBody], #[a], none, none⟩, .idle {}, false⟩

/-- Two instances of the module, which have counted this far. -/
def counters (x y : UInt32) : Store :=
  ⟨⟨#[], #[], #[⟨true, .i32 x⟩, ⟨true, .i32 y⟩]⟩, #[some (counter 0), some (counter 1)], [], []⟩

/-- Section by section. -/
theorem decode_counter : Binary.decode counterInput = .ok counterModule := by
  have htypes : Binary.Reader.oneSection (M := Binary.Reader) 0 {} ⟨8, counterInput.drop 8⟩ =
    .ok ((1, { types := counterModule.types }), ⟨15, counterInput.drop 15⟩) := rfl
  have hfunctions : Binary.Reader.oneSection (M := Binary.Reader) 1 { types := counterModule.types }
      ⟨15, counterInput.drop 15⟩ =
    .ok ((3, { types := counterModule.types, functions := [0] }),
      ⟨19, counterInput.drop 19⟩) := rfl
  have hglobals : Binary.Reader.oneSection (M := Binary.Reader) 3
      { types := counterModule.types, functions := [0] } ⟨19, counterInput.drop 19⟩ =
    .ok ((6, { counterModule with exports := [], codes := [] }), ⟨27, counterInput.drop 27⟩) := rfl
  have hexports : Binary.Reader.oneSection (M := Binary.Reader) 6
      { counterModule with exports := [], codes := [] } ⟨27, counterInput.drop 27⟩ =
    .ok ((7, { counterModule with codes := [] }), ⟨34, counterInput.drop 34⟩) := rfl
  have hcodes : Binary.Reader.oneSection (M := Binary.Reader) 7 { counterModule with codes := [] }
      ⟨34, counterInput.drop 34⟩ = .ok ((10, counterModule), ⟨49, []⟩) := rfl
  have hmodule : Binary.Reader.module (M := Binary.Reader) (Binary.Cursor.start counterInput) =
      Binary.Reader.sections (M := Binary.Reader) 41 0 {} ⟨8, counterInput.drop 8⟩ :=
    Binary.module_header (counterInput.drop 8)
  unfold Binary.decode
  rw [hmodule, Binary.sections_of_oneSection htypes (by decide),
    Binary.sections_of_oneSection hfunctions (by decide),
    Binary.sections_of_oneSection hglobals (by decide),
    Binary.sections_of_oneSection hexports (by decide),
    Binary.sections_of_oneSection hcodes (by decide)]
  rfl

theorem reachable_counters : Reachable [] ⟨counters 0 0, .returned (.ok []), []⟩ := by
  have hvalid : Validation.module counterModule = .ok () := rfl
  have hexternals {name : String} {p : Provider} (h : List.lookup name ([] : Externals) = some p) :
      p.Held [] := nomatch h
  have himports (s : Store) (a : Address) :
      Instantiate.imports s [] ⟨a, counterModule, {}, #[], #[], none, none⟩ counterModule.imports =
        .ok ⟨a, counterModule, {}, #[], #[], none, none⟩ := rfl
  have hsetup : Instantiate.setup ⟨0, counterModule, {}, #[], #[], none, none⟩ {} =
    .ok (counter 0).bindings ⟨#[], #[], #[⟨true, .i32 0⟩]⟩ := rfl
  have hsetup' : Instantiate.setup ⟨1, counterModule, {}, #[], #[], none, none⟩
      ⟨#[], #[], #[⟨true, .i32 0⟩]⟩ =
    .ok (counter 1).bindings (counters 0 0).objects := rfl
  have hfirst : Reachable [] ⟨⟨⟨#[], #[], #[⟨true, .i32 0⟩]⟩, #[some (counter 0)], [], []⟩,
      .returned (.ok []), []⟩ :=
    .act .start (.link decode_counter hvalid hexternals (himports {} 0) hsetup)
  exact .act hfirst (.link decode_counter hvalid hexternals (himports _ 1) hsetup')

/-- The instances are bound to functions of their own and to their globals only. -/
theorem counters_bindings {a : Address} {b : Bindings} (h : (counters 0 0).bindings? a = some b) :
    b = (counter a).bindings := by
  match a with
  | 0 => cases h; rfl
  | 1 => cases h; rfl
  | a + 2 => cases h

theorem counters_reaches {a : Address} {b : Bindings} {f : FuncRef}
    (h : (counters 0 0).bindings? a = some b) : ¬ Reaches b (counters 0 0).objects f := by
  obtain rfl := counters_bindings h
  rintro (⟨x, hx⟩ | ⟨t, _, _, ht, _⟩)
  · unfold Bindings.func at hx
    split at hx
    · next g hg =>
      obtain rfl := Array.mem_singleton.mp (Array.mem_of_getElem? hg)
      cases hx
    · cases hx
  · cases ht

theorem counters_reached {a a' : Address} (h : (counters 0 0).Reached a a') : a' = a := by
  cases h with
  | self => rfl
  | call _ hb hf => exact absurd hf (counters_reaches hb)

theorem counters_disjoint :
    ((counters 0 0).reach 0).toRegion.Disjoint ((counters 0 0).reach 1).toRegion := by
  refine ⟨?_, ?_⟩
  · rintro m ⟨a, b, -, hb, hm⟩
    obtain rfl := counters_bindings hb
    cases hm
  · rintro g ⟨a, b, ha, hb, hg⟩ ⟨a', b', ha', hb', hg'⟩
    obtain rfl := counters_reached ha
    obtain rfl := counters_reached ha'
    obtain rfl := counters_bindings hb
    obtain rfl := counters_bindings hb'
    obtain rfl := Array.mem_singleton.mp hg
    cases Array.mem_singleton.mp hg'

/-- The function of the first counter never touches the global of the second one.  They both come to
1, and their order makes no difference. -/
theorem counters_independent :
    (∀ {m : Machine}, Within [] ((Invocation.named "n" []).begin (counters 0 0) 0) m →
      m.store.objects.globals[1]? = some ⟨true, .i32 0⟩) ∧
    ∃ sb, (Invocation.named "n" []).run 10 (counters 0 0) 1 = some (.ok [.i32 1], sb) ∧
      (Invocation.named "n" []).run 10 sb 0 = some (.ok [.i32 1], counters 1 1) := by
  have hhosts (a : Address) : (counters 0 0).Hostless a := fun _ hb => counters_reaches hb
  have hfirst : (Invocation.named "n" []).run 10 (counters 0 0) 0 =
    some (.ok [.i32 1], counters 1 0) := rfl
  have hsecond : (Invocation.named "n" []).run 10 (counters 1 0) 1 =
    some (.ok [.i32 1], counters 1 1) := rfl
  have hglobal : ((counters 0 0).reach 1).globals 1 :=
    ⟨1, _, .self, rfl, Array.mem_singleton_self _⟩
  obtain ⟨hconfined, -, hcommute⟩ :=
    encapsulation reachable_counters (hhosts 0) (.named "n" [])
  refine ⟨fun hwithin => ?_,
    (hcommute (.named "n" []) (hhosts 1) counters_disjoint hfirst).2 hsecond⟩
  exact (hconfined hwithin).globals fun hin => counters_disjoint.globals hin hglobal

end Isolation

end Wasm
