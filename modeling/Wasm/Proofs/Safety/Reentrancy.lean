import Wasm.Proofs.Encoding.Sections
import Wasm.Proofs.Safety.Quiescence
import Wasm.Proofs.Safety.Soundness

/-!
# Calls back from host functions

A host function that wasm code has called can call back into the instance that waits for it, as
often as it likes and as deeply.  All of this runs on the thread of the activation that waits, above
what is on it.  When the host function returns, the thread is as it was when the function was
entered (`host_isolated`); its results then go on top of the operand stack, if they fit on it.
-/

namespace Wasm

/-- The thread with values on top of its operand stack. -/
def Thread.pushed (t : Thread) (values : List Value) : Thread :=
  .ofLists ((values.map Value.toSlot).reverse ++ t.operands.slots.items) t.operands.limit
    t.frames.items t.localBase t.callDepth

namespace Safety

variable {s : Store} {known : List FuncRef} {m m' : Machine} {act : Activation} {type : FuncType}
  {site : Option Site} {rest : List Waiting} {caller : Caller} {hostType : FuncType} {proc : Proc}
  {values : List Value} {i : Instance} {o : Objects} {t : Thread}

/-! ### Results of host functions -/

/-- Results that pass the check go on top of the operand stack, unless they exceed its limit. -/
theorem resume_eq (hcheck : type.checkResults (values.map Value.type) = .ok ())
    (ht : t.operands.height ≤ t.operands.limit) : Activation.resume type values ⟨o, t⟩ =
      if t.operands.height + values.length ≤ t.operands.limit then .ok () ⟨o, t.pushed values⟩
      else .error Trap.stackOverflow.error ⟨o, t⟩ := by
  unfold Activation.resume
  rw [hcheck]
  refine (Execution.pushAll_eq o t (values.map Value.toSlot) (pure ())).trans ?_
  rw [List.length_map, Nat.max_eq_left ht]
  rfl

/-- The activation that waits goes on with results that fit on its operand stack. -/
theorem resumeWasm_of_le (hi : s.instance? act.self = some i)
    (hcheck : type.checkResults (values.map Value.type) = .ok ())
    (hfits : i.thread.operands.height + values.length ≤ i.thread.operands.limit) :
    Machine.resumeWasm s act type site rest (.ok values) =
      ⟨settled s act.self i ⟨s.objects, i.thread.pushed values⟩, .wasm act, rest⟩ := by
  unfold Machine.resumeWasm
  dsimp only
  rw [run_eq hi, resume_eq hcheck (by omega), if_pos hfits]

/-- The activation that waits fails if the results do not fit. -/
theorem resumeWasm_of_lt (hi : s.instance? act.self = some i)
    (hcheck : type.checkResults (values.map Value.type) = .ok ())
    (hheight : i.thread.operands.height ≤ i.thread.operands.limit)
    (hfull : i.thread.operands.limit < i.thread.operands.height + values.length) :
    ∃ e, (Machine.resumeWasm s act type site rest (.ok values)).focus = .returned (.error e) ∧
      e.code = Code.stackOverflow := by
  unfold Machine.resumeWasm
  dsimp only
  rw [run_eq hi, resume_eq hcheck hheight, if_neg (Nat.not_le.mpr hfull)]
  refine ⟨_, rfl, ?_⟩
  cases site <;> rfl

/-! ### Isolation -/

/-- Wasm code that waits for a host function waits in an instance. -/
theorem Healthy.waits {below : List Waiting} {outer : Threads} (h : Healthy below outer m)
    (hfocus : m.focus = .host caller hostType proc)
    (hwaits : m.waiting = .wasm act type site :: rest) (hbelow : below.length ≤ rest.length) :
    ∃ i, m.store.instance? act.self = some i := by
  obtain ⟨s, focus, waiting⟩ := m
  obtain ⟨-, hinOrder⟩ := h
  obtain rfl : focus = .host caller hostType proc := hfocus
  obtain rfl : waiting = .wasm act type site :: rest := hwaits
  cases hinOrder.2 with
  | refl => exact absurd hbelow (Nat.not_succ_le_self _)
  | wasm hact _ =>
    obtain ⟨b, t, hb, -, -⟩ := hact
    obtain ⟨i, hi, -, -⟩ := exists_instance hb
    exact ⟨i, hi⟩

/-- While a host function runs, everything above the activation that waits for it is in order, and
all threads will be as they are now when the function has returned. -/
theorem Healthy.rebase {below : List Waiting} {outer : Threads} (h : Healthy below outer m)
    (hfocus : m.focus = .host caller hostType proc) :
    Healthy m.waiting m.store.thread? m := by
  obtain ⟨s, focus, waiting⟩ := m
  obtain ⟨hsound, hinOrder⟩ := h
  obtain rfl : focus = .host caller hostType proc := hfocus
  exact ⟨hsound, hinOrder.1, .refl⟩

/-- Whatever a host function does before it returns, and whatever it returns, all threads are then
as they were when it was entered: that of the instance that waits for it, whose activation may have
been entered again in any depth, and those of all other instances.  Results of the right types then
go on top of the operand stack of the activation that waits, and nothing else changes on its thread;
if they do not fit on it, the activation fails. -/
theorem host_isolated (h : Reachable known m) (hfocus : m.focus = .host caller hostType proc)
    (hwaits : m.waiting = .wasm act type site :: rest) :
    ∃ i, m.store.instance? act.self = some i ∧
      ∀ {m' : Machine} {r : Except Error (List Value)}, Within m.waiting m m' →
        m'.waiting = m.waiting → m'.focus = .returned r →
        m'.store.thread? = m.store.thread? ∧
        ∀ {values : List Value}, r = .ok values →
          type.checkResults (values.map Value.type) = .ok () →
          (i.thread.operands.height + values.length ≤ i.bindings.config.maxOperandStack →
            m'.step.focus = .wasm act ∧ m'.step.waiting = rest ∧
            m'.step.store.thread? =
              m.store.thread?.put act.self (i.thread.pushed values)) ∧
          (i.bindings.config.maxOperandStack < i.thread.operands.height + values.length →
            ∃ e, m'.step.focus = .returned (.error e) ∧ e.code = Code.stackOverflow) := by
  obtain ⟨⟨outer, hhealthy, -⟩, hlimited, -⟩ := h.regular
  obtain ⟨i, hi⟩ := hhealthy.waits hfocus hwaits (Nat.zero_le _)
  obtain ⟨hlimit, hheight⟩ := (hlimited.threads hi).operands
  refine ⟨i, hi, fun {m' r} hwithin hwaiting hreturned => ?_⟩
  have hthread : m'.store.thread? = m.store.thread? :=
    (hwithin.healthy (hhealthy.rebase hfocus)).thread?_eq hwaiting hreturned
  refine ⟨hthread, ?_⟩
  rintro values rfl hcheck
  -- The instance that waits has its thread back.
  have hsame := congrFun hthread act.self
  rw [Store.thread?, Store.thread?, hi] at hsame
  obtain ⟨i', hi', hthread'⟩ := Option.map_eq_some_iff.mp hsame
  replace hthread' : i'.thread = i.thread := hthread'
  obtain ⟨s', focus', waiting'⟩ := m'
  obtain rfl : focus' = .returned (.ok values) := hreturned
  obtain rfl : waiting' = .wasm act type site :: rest := hwaiting.trans hwaits
  have hstep : Machine.step ⟨s', .returned (.ok values), .wasm act type site :: rest⟩ =
      Machine.resumeWasm s' act type site rest (.ok values) := rfl
  rw [← hlimit, ← hthread', hstep]
  rw [← hlimit, ← hthread'] at hheight
  constructor
  · intro hfits
    rw [resumeWasm_of_le hi' hcheck hfits]
    refine ⟨rfl, rfl, ?_⟩
    rw [thread?_settled hi']
    exact congrArg (Threads.put · act.self _) hthread
  · exact resumeWasm_of_lt hi' hcheck hheight

/-! ### A host function with a result -/

/-- A module that imports a function, has one that calls it and drops its result, and exports one
that returns 2. -/
def callerInput : List UInt8 :=
  [0x00, 0x61, 0x73, 0x6D, 1, 0, 0, 0, 1, 8, 2, 0x60, 0, 1, 0x7F, 0x60, 0, 0,
    2, 7, 1, 1, 0x61, 1, 0x68, 0, 0, 3, 3, 2, 1, 0, 7, 7, 1, 3, 0x74, 0x77, 0x6F, 0, 2,
    10, 15, 2, 8, 0, 0x41, 5, 0x10, 0, 0x1A, 0x1A, 0x0B, 4, 0, 0x41, 2, 0x0B]

def callerBody : Expr :=
  [.plain (.const .i32) (.value (.i32 5)), .plain .call (.index 0), .plain .drop .none,
    .plain .drop .none]

def twoBody : Expr :=
  [.plain (.const .i32) (.value (.i32 2))]

def callerModule : Module :=
  { types := [⟨[], [.i32]⟩, ⟨[], []⟩]
    imports := [⟨"a", "h", .func 0⟩]
    functions := [1, 0]
    exports := [⟨"two", .func, 2⟩]
    codes := [⟨[], callerBody⟩, ⟨[], twoBody⟩] }

/-- The module of the host that provides the imported function. -/
def callee (run : List Value → Proc) : NativeModule :=
  ⟨"a", [("h", .func (.host ⟨[], [.i32]⟩ run))]⟩

/-- The only instance of the module, in which nothing runs. -/
def callerStore (config : Config) (run : List Value → Proc) : Store :=
  ⟨{}, #[some ⟨⟨0, callerModule, config, #[.imported (.host ⟨[], [.i32]⟩ run),
    .defined ⟨[], []⟩ 0 callerBody, .defined ⟨[], [.i32]⟩ 0 twoBody], #[], none, none⟩,
    .idle config, false⟩], [], []⟩

/-- The machine that calls the function, after a number of steps; with the third one the host
function is entered. -/
def callerAfter (config : Config) (run : List Value → Proc) : Nat → Machine
  | 0 => Machine.invokeIndex (callerStore config run) 0 true 1 [] []
  | n + 1 => (callerAfter config run n).step

/-- Section by section. -/
theorem decode_caller : Binary.decode callerInput = .ok callerModule := by
  have htypes : Binary.Reader.oneSection (M := Binary.Reader) 0 {} ⟨8, callerInput.drop 8⟩ =
    .ok ((1, { types := callerModule.types }), ⟨18, callerInput.drop 18⟩) := rfl
  have himports : Binary.Reader.oneSection (M := Binary.Reader) 1 { types := callerModule.types }
      ⟨18, callerInput.drop 18⟩ =
    .ok ((2, { callerModule with functions := [], exports := [], codes := [] }),
      ⟨27, callerInput.drop 27⟩) := rfl
  have hfunctions : Binary.Reader.oneSection (M := Binary.Reader) 2
      { callerModule with functions := [], exports := [], codes := [] } ⟨27, callerInput.drop 27⟩ =
    .ok ((3, { callerModule with exports := [], codes := [] }), ⟨32, callerInput.drop 32⟩) := rfl
  have hexports : Binary.Reader.oneSection (M := Binary.Reader) 3
      { callerModule with exports := [], codes := [] } ⟨32, callerInput.drop 32⟩ =
    .ok ((7, { callerModule with codes := [] }), ⟨41, callerInput.drop 41⟩) := rfl
  have hcodes : Binary.Reader.oneSection (M := Binary.Reader) 7 { callerModule with codes := [] }
      ⟨41, callerInput.drop 41⟩ = .ok ((10, callerModule), ⟨58, []⟩) := rfl
  have hmodule : Binary.Reader.module (M := Binary.Reader) (Binary.Cursor.start callerInput) =
      Binary.Reader.sections (M := Binary.Reader) 50 0 {} ⟨8, callerInput.drop 8⟩ :=
    Binary.module_header (callerInput.drop 8)
  unfold Binary.decode
  rw [hmodule, Binary.sections_of_oneSection htypes (by decide),
    Binary.sections_of_oneSection himports (by decide),
    Binary.sections_of_oneSection hfunctions (by decide),
    Binary.sections_of_oneSection hexports (by decide),
    Binary.sections_of_oneSection hcodes (by decide)]
  rfl

theorem valid_caller : Validation.module callerModule = .ok () := by
  have hstructure : Validation.structureOf callerModule = .ok () := rfl
  unfold Validation.module
  rw [hstructure]
  rfl

theorem held_callee (run : List Value → Proc) : (callee run).Held [] := by
  intro name f hmember
  unfold NativeModule.member? callee at hmember
  rw [List.lookup_cons] at hmember
  split at hmember
  · cases hmember
    trivial
  · cases hmember

theorem reachable_caller (config : Config) (run : List Value → Proc) :
    Reachable [] ⟨callerStore config run, .returned (.ok []), []⟩ := by
  have himports : Instantiate.imports {} [("a", .native (callee run))]
      ⟨0, callerModule, config, #[], #[], none, none⟩ callerModule.imports =
    .ok ⟨0, callerModule, config, #[.imported (.host ⟨[], [.i32]⟩ run)], #[], none, none⟩ := rfl
  have hexternals {name : String} {p : Provider}
      (h : List.lookup name ([("a", .native (callee run))] : Externals) = some p) : p.Held [] := by
    rw [List.lookup_cons] at h
    split at h
    · cases h
      exact held_callee run
    · cases h
  exact .act .start (.link decode_caller valid_caller hexternals himports rfl)

theorem reachable_callerAfter (config : Config) (run : List Value → Proc) (n : Nat) :
    Reachable [] (callerAfter config run n) := by
  induction n with
  | zero => exact .call (reachable_caller config run) (.index (a := 0) rfl rfl [])
  | succ n ih => exact .step ih

/-- A host function that calls back and returns what it gets. -/
def callTwo (_ : List Value) : Proc :=
  .invoke .caller "two" [] .done

theorem within_callTwo (n : Nat) (hn : n ≤ 6) :
    Within (callerAfter {} callTwo 3).waiting (callerAfter {} callTwo 3)
      (callerAfter {} callTwo (3 + n)) := by
  induction n with
  | zero => exact .refl
  | succ n ih =>
    refine .step (ih (by omega)) fun hwaiting r hreturned => ?_
    rcases n with _ | _ | _ | _ | _ | _ | n
    · cases hreturned
    · cases hreturned
    · cases hreturned
    · cases hreturned
    · cases congrArg List.length hwaiting
    · cases hreturned
    · omega

/-- The host function is entered with one operand below it.  It has its caller run the exported
function, and returns 2; then the operand is still there, and the 2 is on top of it. -/
theorem caller_reentered :
    (callerAfter {} callTwo 9).store.thread? = (callerAfter {} callTwo 3).store.thread? ∧
    ∃ i, (callerAfter {} callTwo 3).store.instance? 0 = some i ∧
      i.thread.operands.slots.items = [5] ∧
      (callerAfter {} callTwo 10).store.thread? =
        (callerAfter {} callTwo 3).store.thread?.put 0 (i.thread.pushed [.i32 2]) := by
  have hfocus : (callerAfter {} callTwo 3).focus = .host (.instance 0) ⟨[], [.i32]⟩ (callTwo []) :=
    rfl
  obtain ⟨act, site, hself, hwaits⟩ : ∃ act site, act.self = 0 ∧
      (callerAfter {} callTwo 3).waiting = [.wasm act ⟨[], [.i32]⟩ site] := ⟨_, _, rfl, rfl⟩
  obtain ⟨i, hi, hisolated⟩ := host_isolated (reachable_callerAfter {} callTwo 3) hfocus hwaits
  have hreturned : (callerAfter {} callTwo 9).focus = .returned (.ok [.i32 2]) := rfl
  have hwaiting : (callerAfter {} callTwo 9).waiting = (callerAfter {} callTwo 3).waiting := rfl
  have hstep : callerAfter {} callTwo 10 = (callerAfter {} callTwo 9).step := rfl
  have hcheck : FuncType.checkResults ⟨[], [.i32]⟩ [.i32] = .ok () := rfl
  obtain ⟨hthread, hresults⟩ :=
    hisolated (within_callTwo 6 (Nat.le_refl 6)) hwaiting hreturned
  obtain ⟨j, hj, hitems, hfits⟩ : ∃ j, (callerAfter {} callTwo 3).store.instance? 0 = some j ∧
      j.thread.operands.slots.items = [5] ∧
      j.thread.operands.height + 1 ≤ j.bindings.config.maxOperandStack :=
    ⟨_, rfl, rfl, by decide⟩
  rw [hself] at hi hresults
  cases hi.symm.trans hj
  rw [hstep]
  exact ⟨hthread, i, hi, hitems, ((hresults rfl hcheck).1 hfits).2.2⟩

/-- A configuration with room for one operand. -/
def narrow : Config :=
  { maxOperandStack := 1 }

/-- A host function that returns 7. -/
def seven (_ : List Value) : Proc :=
  .done (.ok [.i32 7])

/-- The host function returns what its type says, but the operand stack of the activation that waits
for it is full, and the activation fails. -/
theorem host_result_overflows :
    Reachable [] (callerAfter narrow seven 3) ∧
    (callerAfter narrow seven 3).focus = .host (.instance 0) ⟨[], [.i32]⟩ (seven []) ∧
    (∃ act site, act.self = 0 ∧
      (callerAfter narrow seven 3).waiting = [.wasm act ⟨[], [.i32]⟩ site]) ∧
    Within (callerAfter narrow seven 3).waiting (callerAfter narrow seven 3)
      (callerAfter narrow seven 4) ∧
    (callerAfter narrow seven 4).focus = .returned (.ok [.i32 7]) ∧
    (callerAfter narrow seven 4).waiting = (callerAfter narrow seven 3).waiting ∧
    FuncType.checkResults ⟨[], [.i32]⟩ [.i32] = .ok () ∧
    (∃ e, (callerAfter narrow seven 5).focus = .returned (.error e) ∧
      e.code = Code.stackOverflow) ∧
    ∀ i, (callerAfter narrow seven 3).store.instance? 0 = some i →
      (callerAfter narrow seven 5).store.thread? ≠
        (callerAfter narrow seven 3).store.thread?.put 0 (i.thread.pushed [.i32 7]) := by
  refine ⟨reachable_callerAfter _ _ 3, rfl, ⟨_, _, rfl, rfl⟩, .step .refl fun _ r h => ?_, rfl, rfl,
    rfl, ⟨_, rfl, rfl⟩, fun i hi heq => ?_⟩
  · cases h
  · -- The failed activation has taken its operands with it.
    obtain ⟨j, hj, hheight⟩ : ∃ j, (callerAfter narrow seven 3).store.instance? 0 = some j ∧
        (j.thread.pushed [.i32 7]).operands.height = 2 := ⟨_, rfl, rfl⟩
    cases hi.symm.trans hj
    have hbefore : ((callerAfter narrow seven 5).store.thread? 0).map
      (fun t => t.operands.height) = some 0 := rfl
    rw [heq] at hbefore
    cases (congrArg some hheight).symm.trans hbefore

end Safety

end Wasm
