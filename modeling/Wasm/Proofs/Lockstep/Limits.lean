import Wasm.Proofs.Lockstep.Trials

/-!
# Higher limits

The limits on the call depth and on the operand stack decide nothing but whether a call ends at
them.  In a trial of a module that calls nothing else, higher limits change no outcome as long as no
call has met the lower ones (`same_under_higher_limits`).  A call that has met one may have left its
work half done, and from there on two trials may part for good (`limit_lasts`).
-/

namespace Wasm.Lockstep

/-- For every module that has been decoded and is valid, that imports no functions, and whose
instance has no functions of others in its table, and for any calls: as long as no call (the first
one being the instantiation, with its start function) ends at a limit, the calls under limits at
least as high end in the same way, with the same values or the same error, and leave the same
memories, tables and globals.  And however a call ends under the higher limits, as long as no call
before it has ended at a limit under the lower ones, it ends under them in the same way, or at a
limit. -/
theorem same_under_higher_limits {input : List UInt8} {m : Module} {config config' : Config}
    {s : Store} {externals : Externals} (hdecode : Binary.decode input = .ok m)
    (hvalid : Validation.module m = .ok ()) (hcount : m.importCount .func = 0)
    (hown : ∀ {b : Bindings}, (s.link externals m config).2.bindings? s.instances.size = some b →
      b.OwnsTable (s.link externals m config).2.objects)
    (hdepth : config.maxCallDepth ≤ config'.maxCallDepth)
    (hstack : config.maxOperandStack ≤ config'.maxOperandStack)
    (hpages : config'.maxMemoryPages = config.maxMemoryPages) (fuel : Nat)
    (calls : List Invocation) (k : Nat) :
    ((∀ {j : Nat} {x : Outcome}, j ≤ k → (s.trial fuel externals m config calls)[j]? = some x →
        ¬ x.AtLimit) →
      (s.trial fuel externals m config' calls)[k]? = (s.trial fuel externals m config calls)[k]?) ∧
    ((∀ {j : Nat} {x : Outcome}, j < k → (s.trial fuel externals m config calls)[j]? = some x →
        ¬ x.AtLimit) →
      ∀ {y : Outcome}, (s.trial fuel externals m config' calls)[k]? = some y →
        (s.trial fuel externals m config calls)[k]? = some y ∨
          ∃ x, (s.trial fuel externals m config calls)[k]? = some x ∧ x.AtLimit) := by
  have hconfig : config.InStep True config' :=
    ⟨.inr ⟨trivial, hdepth⟩, .inr ⟨trivial, hstack⟩, hpages⟩
  have halone : (s.link externals m config).2.Alone s.instances.size :=
    Instantiation.Linkage.alone_link (l := ⟨s, externals, m, config⟩)
      (Binary.constantsRead_of_decode hdecode) hvalid hcount hown
  have habreast := (Store.InStep.refl s).trial fuel externals (.refl m) hconfig hvalid hvalid
    (fun _ => halone) calls
  refine ⟨habreast.getElem?_eq, fun hbelow y hy => ?_⟩
  -- Either this call is the first one at a limit, or none is so far.
  by_cases hlimit : ∃ x, (s.trial fuel externals m config calls)[k]? = some x ∧ x.AtLimit
  · exact .inr hlimit
  · have hsame := habreast.getElem?_eq fun {j x} hj hx hat => by
      rcases Nat.lt_or_eq_of_le hj with hlt | rfl
      · exact hbelow hlt hx hat
      · exact hlimit ⟨x, hx, hat⟩
    exact .inl (hsame.symm.trans hy)

/-! ### A global that is set too late -/

/-- A module with a function that does nothing, one that calls it and then sets a global to 1, and
one that divides 1 by the global. -/
def ratioInput : List UInt8 :=
  [0x00, 0x61, 0x73, 0x6D, 1, 0, 0, 0, 1, 8, 2, 0x60, 0, 0, 0x60, 0, 1, 0x7F, 3, 4, 3, 0, 0, 1,
    6, 6, 1, 0x7F, 1, 0x41, 0, 0x0B,
    10, 21, 3, 2, 0, 0x0B, 8, 0, 0x10, 0, 0x41, 1, 0x24, 0, 0x0B,
    7, 0, 0x41, 1, 0x23, 0, 0x6E, 0x0B]

def ratioModule : Module :=
  { types := [⟨[], []⟩, ⟨[], [.i32]⟩]
    functions := [0, 0, 1]
    globals := [⟨⟨.i32, true⟩, [.plain (.const .i32) (.value (.i32 0))]⟩]
    codes := [⟨[], []⟩,
      ⟨[], [.plain .call (.index 0), .plain (.const .i32) (.value (.i32 1)),
        .plain .globalSet (.index 0)]⟩,
      ⟨[], [.plain (.const .i32) (.value (.i32 1)), .plain .globalGet (.index 0),
        .plain (.intBinary .w32 (.div .unsigned)) .none]⟩] }

/-- Section by section. -/
theorem decode_ratio : Binary.decode ratioInput = .ok ratioModule := by
  have htypes : Binary.Reader.oneSection (M := Binary.Reader) 0 {} ⟨8, ratioInput.drop 8⟩ =
    .ok ((1, { types := ratioModule.types }), ⟨18, ratioInput.drop 18⟩) := rfl
  have hfunctions : Binary.Reader.oneSection (M := Binary.Reader) 1 { types := ratioModule.types }
      ⟨18, ratioInput.drop 18⟩ =
    .ok ((3, { types := ratioModule.types, functions := [0, 0, 1] }),
      ⟨24, ratioInput.drop 24⟩) := rfl
  have hglobals : Binary.Reader.oneSection (M := Binary.Reader) 3
      { types := ratioModule.types, functions := [0, 0, 1] } ⟨24, ratioInput.drop 24⟩ =
    .ok ((6, { ratioModule with codes := [] }), ⟨32, ratioInput.drop 32⟩) := rfl
  have hcodes : Binary.Reader.oneSection (M := Binary.Reader) 6 { ratioModule with codes := [] }
      ⟨32, ratioInput.drop 32⟩ = .ok ((10, ratioModule), ⟨55, []⟩) := rfl
  have hmodule : Binary.Reader.module (M := Binary.Reader) (Binary.Cursor.start ratioInput) =
      Binary.Reader.sections (M := Binary.Reader) 47 0 {} ⟨8, ratioInput.drop 8⟩ :=
    Binary.module_header (ratioInput.drop 8)
  unfold Binary.decode
  rw [hmodule, Binary.sections_of_oneSection htypes (by decide),
    Binary.sections_of_oneSection hfunctions (by decide),
    Binary.sections_of_oneSection hglobals (by decide),
    Binary.sections_of_oneSection hcodes (by decide)]
  rfl

/-- The global of the instance is the only object. -/
def ratioObjects (n : UInt32) : Objects :=
  ⟨#[], #[], #[⟨true, .i32 n⟩]⟩

/-- The global is set, and then it is divided by. -/
def ratioCalls : List Invocation :=
  [.indexed 1 [], .indexed 2 []]

/-- With room for one call only, the global is not set. -/
theorem trial_ratio_low : ({} : Store).trial 10 [] ratioModule { maxCallDepth := 1 } ratioCalls =
    [⟨.ok [], ratioObjects 0⟩,
      ⟨.error (.trap Code.callStackExhausted "instruction 0 (call): call stack exhausted at depth 1"),
        ratioObjects 0⟩,
      ⟨.error (.trap Code.divisionByZero "instruction 2 (i32.div_u): integer divide by zero"),
        ratioObjects 0⟩] := rfl

theorem trial_ratio_high : ({} : Store).trial 10 [] ratioModule { maxCallDepth := 2 } ratioCalls =
    [⟨.ok [], ratioObjects 0⟩, ⟨.ok [], ratioObjects 1⟩, ⟨.ok [.i32 1], ratioObjects 1⟩] := rfl

theorem ratio_ownsTable {config : Config} {b : Bindings}
    (hb : (({} : Store).link [] ratioModule config).2.bindings? 0 = some b) :
    b.OwnsTable (({} : Store).link [] ratioModule config).2.objects := by
  cases hb
  rintro g ⟨t, _, _, ht, -⟩
  cases ht

/-- With room for three calls it is as with room for two.  With room for two calls the global is
set, so with room for one it is set as well, or the call ends at a limit. -/
theorem ratio_same_under_higher_limits :
    (({} : Store).trial 10 [] ratioModule { maxCallDepth := 3 } ratioCalls)[2]? =
      some ⟨.ok [.i32 1], ratioObjects 1⟩ ∧
    ((({} : Store).trial 10 [] ratioModule { maxCallDepth := 1 } ratioCalls)[1]? =
      some ⟨.ok [], ratioObjects 1⟩ ∨
    ∃ x, (({} : Store).trial 10 [] ratioModule { maxCallDepth := 1 } ratioCalls)[1]? = some x ∧
      x.AtLimit) := by
  have hvalid : Validation.module ratioModule = .ok () := rfl
  have hhigh {j : Nat} {x : Outcome}
      (hx : (({} : Store).trial 10 [] ratioModule { maxCallDepth := 2 } ratioCalls)[j]? = some x) :
      ¬ x.AtLimit := by
    rintro ⟨e, he, -⟩
    rw [trial_ratio_high] at hx
    match j with
    | 0 | 1 | 2 =>
      cases hx
      cases he
  have hfirst {j : Nat} {x : Outcome} (hj : j < 1)
      (hx : (({} : Store).trial 10 [] ratioModule { maxCallDepth := 1 } ratioCalls)[j]? = some x) :
      ¬ x.AtLimit := by
    rintro ⟨e, he, -⟩
    obtain rfl : j = 0 := by omega
    rw [trial_ratio_low] at hx
    cases hx
    cases he
  constructor
  · have hsame : (({} : Store).trial 10 [] ratioModule { maxCallDepth := 3 } ratioCalls)[2]? =
        (({} : Store).trial 10 [] ratioModule { maxCallDepth := 2 } ratioCalls)[2]? :=
      (same_under_higher_limits decode_ratio hvalid rfl ratio_ownsTable (by decide) (Nat.le_refl _)
        rfl 10 ratioCalls 2).1 fun _ hx => hhigh hx
    rw [hsame, trial_ratio_high]
    rfl
  · have hset : (({} : Store).trial 10 [] ratioModule { maxCallDepth := 2 } ratioCalls)[1]? =
        some ⟨.ok [], ratioObjects 1⟩ := by
      rw [trial_ratio_high]
      rfl
    have hdepth : ({ maxCallDepth := 1 } : Config).maxCallDepth ≤
        ({ maxCallDepth := 2 } : Config).maxCallDepth := by decide
    exact (same_under_higher_limits decode_ratio hvalid rfl ratio_ownsTable hdepth (Nat.le_refl _)
      rfl 10 ratioCalls 1).2 hfirst hset

/-- With room for one call, the call that sets the global ends at the limit before it does so, and
nothing sets it later: the division fails, which under the higher limit gives 1. -/
theorem limit_lasts : Binary.decode ratioInput = .ok ratioModule ∧
    Validation.module ratioModule = .ok () ∧ ratioModule.importCount .func = 0 ∧
    (∀ {b : Bindings},
      (({} : Store).link [] ratioModule { maxCallDepth := 1 }).2.bindings? 0 = some b →
        b.OwnsTable (({} : Store).link [] ratioModule { maxCallDepth := 1 }).2.objects) ∧
    ∃ x y : Outcome,
      (({} : Store).trial 10 [] ratioModule { maxCallDepth := 1 } ratioCalls)[2]? = some x ∧
      (({} : Store).trial 10 [] ratioModule { maxCallDepth := 2 } ratioCalls)[2]? = some y ∧
      y.result = .ok [.i32 1] ∧ x.result ≠ y.result ∧ ¬ x.AtLimit := by
  refine ⟨decode_ratio, rfl, rfl, ratio_ownsTable,
    ⟨.error (.trap Code.divisionByZero "instruction 2 (i32.div_u): integer divide by zero"),
      ratioObjects 0⟩, ⟨.ok [.i32 1], ratioObjects 1⟩, ?_, ?_, rfl, nofun, ?_⟩
  · rw [trial_ratio_low]
    rfl
  · rw [trial_ratio_high]
    rfl
  · rintro ⟨e, he, hcode⟩
    cases he
    revert hcode
    unfold Error.Exhausted
    decide

end Wasm.Lockstep
