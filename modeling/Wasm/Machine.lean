import Wasm.Machine.Activation

/-!
The machine.  Wasm code and host functions call each other in turns, and each waits for what it
called.  A `Machine` is what is to be done now, the `focus`, and the list of what waits, the most
recent first.  `step` moves it on by one instruction, request, call or return; `run` repeats that
until the outermost call has returned.
-/

namespace Wasm

/-- What is to be done. -/
inductive Focus where
  /-- Wasm code runs. -/
  | wasm (act : Activation)
  /-- A host function of the given type runs. -/
  | host (caller : Caller) (type : FuncType) (proc : Proc)
  /-- A function is called on behalf of a module. -/
  | call (caller : Caller) (call : Call)
  /-- A call has returned. -/
  | returned (result : Except Error (List Value))

/-- What waits for a call to return. -/
inductive Waiting where
  /-- Wasm code that called a function of the given type; a call that an instruction made has a
  site. -/
  | wasm (act : Activation) (type : FuncType) (site : Option Site)
  /-- A host function of the given type. -/
  | host (caller : Caller) (type : FuncType) (next : Except Error (List Value) → Proc)

/-- The state of a computation over all modules. -/
structure Machine where
  store : Store
  focus : Focus
  waiting : List Waiting

namespace Machine

/-- The machine after a failed activation: the thread is as it was before the call. -/
def fail (s : Store) (act : Activation) (e : Error) (waiting : List Waiting) : Machine :=
  ⟨act.release (act.undo s), .returned (.error e), waiting⟩

/-! ### Calls -/

/-- Calls a function of an instance by its index.  An exclusive call takes the instance for itself
until it returns. -/
def invokeIndex (s : Store) (a : Address) (exclusive : Bool) (index : UInt32) (args : List Value)
    (waiting : List Waiting) : Machine :=
  match s.instance? a with
  | none => ⟨s, .returned (.error ownerDropped), waiting⟩
  | some i =>
    let s := if exclusive then s.modifyInstance a fun i => { i with busy := true } else s
    match i.bindings.func index with
    | .error t => fail s ⟨a, [], i.thread, exclusive⟩ t.error waiting
    | .ok f =>
      let act : Activation := ⟨a, f.type.results, i.thread, exclusive⟩
      match f.type.checkArgs (args.map Value.type) with
      | .error e => fail s act e waiting
      | .ok () =>
        match act.run (Activation.enter index args) s with
        | .error e s => fail s act e waiting
        | .ok none s => ⟨s, .wasm act, waiting⟩
        | .ok (some call) s =>
          ⟨s, .call (.instance a) call, .wasm act call.func.type none :: waiting⟩

/-- Calls a function that an instance exports. -/
def invokeExport (s : Store) (a : Address) (exclusive : Bool) (name : String) (args : List Value)
    (waiting : List Waiting) : Machine :=
  match s.instance? a with
  | none => ⟨s, .returned (.error ownerDropped), waiting⟩
  | some i =>
    match i.bindings.exportIndex .func name with
    | .error e => ⟨s, .returned (.error e), waiting⟩
    | .ok index => invokeIndex s a exclusive index args waiting

/-- Calls a function that an instance exports, unless the instance is running already. -/
def invokeHandle (s : Store) (a : Address) (name : String) (args : List Value)
    (waiting : List Waiting) : Machine :=
  if s.isBusy a then ⟨s, .returned (.error alreadyExecuting), waiting⟩
  else invokeExport s a true name args waiting

/-- Calls a function of a native module, which is then the caller. -/
def invokeNative (s : Store) (m : NativeModule) (name : String) (args : List Value)
    (waiting : List Waiting) : Machine :=
  match m.func name with
  | .error e => ⟨s, .returned (.error e), waiting⟩
  | .ok f => ⟨s, .call (.native m) ⟨f, args⟩, waiting⟩

/-- Calls a function for a module. -/
def callRef (s : Store) (caller : Caller) (call : Call) (waiting : List Waiting) : Machine :=
  match call.func with
  | .host type run =>
    match type.checkArgs (call.args.map Value.type) with
    | .error e => ⟨s, .returned (.error e), waiting⟩
    | .ok () => ⟨s, .host caller type (run call.args), waiting⟩
  | .owned _ owner index =>
    if s.isBusy owner then ⟨s, .returned (.error (ownerExecuting index)), waiting⟩
    else invokeIndex s owner true index call.args waiting

/-! ### Steps -/

/-- One step of wasm code. -/
def stepWasm (s : Store) (act : Activation) (waiting : List Waiting) : Machine :=
  if act.isFinished s then
    match act.run (fun _ => Activation.finish act.results) s with
    | .error e s => fail s act e waiting
    | .ok values s => ⟨act.release s, .returned (.ok values), waiting⟩
  else
    match act.run Activation.advance s with
    | .error e s => fail s act e waiting
    | .ok none s => ⟨s, .wasm act, waiting⟩
    | .ok (some (call, site)) s =>
      ⟨s, .call (.instance act.self) call, .wasm act call.func.type (some site) :: waiting⟩

/-- One step of a host function. -/
def stepHost (s : Store) (caller : Caller) (type : FuncType) (waiting : List Waiting) :
    Proc → Machine
  | .done (.error e) => ⟨s, .returned (.error e), waiting⟩
  | .done (.ok values) =>
    match type.checkResults (values.map Value.type) with
    | .error e => ⟨s, .returned (.error e), waiting⟩
    | .ok () => ⟨s, .returned (.ok values), waiting⟩
  | .ask request next =>
    let (answer, s) := s.answer caller request
    ⟨s, .host caller type (next answer), waiting⟩
  | .invoke .caller name args next =>
    match caller with
    | .instance a => invokeExport s a false name args (.host caller type next :: waiting)
    | .native m => invokeNative s m name args (.host caller type next :: waiting)
  | .invoke (.handle h) name args next =>
    match s.handle? h with
    | some a => invokeHandle s a name args (.host caller type next :: waiting)
    | none => ⟨s, .host caller type (next (.error ownerDropped)), waiting⟩
  | .call source args otherwise next =>
    match s.funcAt caller source with
    | some f => ⟨s, .call caller ⟨f, args⟩, .host caller type next :: waiting⟩
    | none => ⟨s, .host caller type otherwise, waiting⟩

/-- Gives what a call returned to the wasm code that waits for it. -/
def resumeWasm (s : Store) (act : Activation) (type : FuncType) (site : Option Site)
    (waiting : List Waiting) (result : Except Error (List Value)) : Machine :=
  let outward (e : Error) : Error :=
    match site with
    | some site => e.at site
    | none => e
  match result with
  | .error e => fail s act (outward e) waiting
  | .ok values =>
    match act.run (fun _ => Activation.resume type values) s with
    | .error e s => fail s act (outward e) waiting
    | .ok () s => ⟨s, .wasm act, waiting⟩

/-- One step; a machine whose outermost call has returned stays as it is. -/
def step (m : Machine) : Machine :=
  match m with
  | ⟨s, .wasm act, waiting⟩ => stepWasm s act waiting
  | ⟨s, .host caller type proc, waiting⟩ => stepHost s caller type waiting proc
  | ⟨s, .call caller call, waiting⟩ => callRef s caller call waiting
  | ⟨s, .returned r, []⟩ => ⟨s, .returned r, []⟩
  | ⟨s, .returned r, .wasm act type site :: waiting⟩ => resumeWasm s act type site waiting r
  | ⟨s, .returned r, .host caller type next :: waiting⟩ => ⟨s, .host caller type (next r), waiting⟩

/-- Runs until the outermost call has returned, for at most `fuel` steps. -/
def run : Nat → Machine → Option (Except Error (List Value) × Store)
  | _, ⟨s, .returned r, []⟩ => some (r, s)
  | 0, _ => none
  | fuel + 1, m => run fuel m.step

end Machine

end Wasm
