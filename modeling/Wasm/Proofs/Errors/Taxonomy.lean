import Wasm.File
import Wasm.Proofs.Errors.Registrations
import Wasm.Proofs.Framing.Modules

/-!
# The taxonomy of failures

What an embedder is told when something fails: a failure to decode is one of parsing, a failure to
validate is one of validation, and whatever else fails, category and code agree, unless a function
of the host has built the failure.  The embedder may do what it likes, in any order
(`Session.Deed`); no context that is put in front of a failure on its way out changes what kind of
failure it is.
-/

namespace Wasm

variable {own : Error → Prop} {s : Store} {x x' : Session}

/-! ### What an embedder does -/

/-- The failure that an embedder is told of. -/
def failure? {α : Type} : Except Error α → Option Error
  | .ok _ => none
  | .error e => some e

/-- Something that an embedder does, and the failure that it is told of if there is one.  Host
functions that it brings along build what `own` allows. -/
inductive Session.Deed (own : Error → Prop) (x : Session) : Option Error → Session → Prop where
  | build {items : List Registration} (hitems : ∀ item ∈ items, item.Builds own) (withEnv : Bool) :
      Deed own x (failure? (x.build items withEnv).1) (x.build items withEnv).2
  /-- It provides modules for imports otherwise. -/
  | provide {externals : Externals} (h : externals.Builds own) :
      Deed own x none { x with externals := externals }
  | instantiate {fuel : Nat} {name : String} {m : Module} {config : Config}
      {r : Except Error (List Export)} {x' : Session}
      (h : x.instantiate fuel name m config = some (r, x')) : Deed own x (failure? r) x'
  | drop (name : String) : Deed own x none (x.drop name)
  | takeEvents : Deed own x none x.takeEvents.2
  | invoke {fuel : Nat} {a : Address} {name : String} {args : List Value}
      {r : Except Error (List Value)} {s : Store}
      (h : x.store.invoke fuel a name args = some (r, s)) :
      Deed own x (failure? r) { x with store := s }
  | invokeIndex {fuel : Nat} {a : Address} {index : UInt32} {args : List Value}
      {r : Except Error (List Value)} {s : Store}
      (h : x.store.invokeIndex fuel a index args = some (r, s)) :
      Deed own x (failure? r) { x with store := s }
  | invokeProvided {fuel : Nat} {p : Provider} {name : String} {args : List Value}
      {r : Except Error (List Value)} {s : Store} (hp : p.Builds own)
      (h : x.store.invokeProvided fuel p name args = some (r, s)) :
      Deed own x (failure? r) { x with store := s }
  | callFunc {fuel : Nat} {caller : NativeModule} {f : FuncRef} {args : List Value}
      {r : Except Error (List Value)} {s : Store} (hcaller : caller.Builds own)
      (hf : f.Builds own) (h : x.store.callFunc fuel caller f args = some (r, s)) :
      Deed own x (failure? r) { x with store := s }
  | getGlobal (p : Provider) (name : String) : Deed own x (failure? (x.store.getGlobal p name)) x
  | setGlobal (p : Provider) (name : String) (v : Value) :
      Deed own x (failure? (x.store.setGlobal p name v).1)
        { x with store := (x.store.setGlobal p name v).2 }
  | addGlobal (c : Cell) : Deed own x none { x with store := (x.store.addGlobal c).2 }
  | allocate (limits : Limits) (maxPages : UInt32) :
      Deed own x (failure? (x.store.member (.memory limits maxPages)).1)
        { x with store := (x.store.member (.memory limits maxPages)).2 }
  | growMemory (a : Address) (delta : UInt32) :
      Deed own x (failure? (x.store.growMemory a delta).1)
        { x with store := (x.store.growMemory a delta).2 }
  | readMemory (a : Address) (offset length : Nat) :
      Deed own x (failure? (x.store.readMemory a offset length)) x
  | assignMemory (a : Address) (offset : Nat) (data : List UInt8) :
      Deed own x (failure? (x.store.assignMemory a offset data).1)
        { x with store := (x.store.assignMemory a offset data).2 }
  | addTable (type : TableType) :
      Deed own x none { x with store := (x.store.addTable (.allocate type)).2 }
  | growTable (a : Address) (delta : UInt32) :
      Deed own x (failure? (x.store.growTable a delta).1)
        { x with store := (x.store.growTable a delta).2 }
  | slot (a : Address) (index : UInt32) : Deed own x (failure? (x.store.slot a index)) x
  | setSlot (a : Address) (index : UInt32) {f : Option FuncRef} (h : ∀ g, f = some g → g.Builds own) :
      Deed own x (failure? (x.store.setSlot a index f).1)
        { x with store := (x.store.setSlot a index f).2 }

/-- The sessions that come about. -/
abbrev Session.Arises (own : Error → Prop) : Session → Prop :=
  Relation.ReflTransGen (fun x x' => ∃ e, x.Deed own e x') {}

structure Session.Builds (own : Error → Prop) (x : Session) : Prop where
  store : x.store.Builds own
  externals : x.externals.Builds own

theorem accounted_of_failure? {α : Type} {r : Except Error α} (h : Accounts own r) {e : Error}
    (he : failure? r = some e) : e.Accounted own := by
  cases r with
  | ok a => cases he
  | error e' =>
    cases he
    exact h rfl

theorem accounts_providedGlobal (p : Provider) (name : String) :
    Accounts own (s.providedGlobal p name) := by
  cases p with
  | native m => exact accounts_nativeGlobal m name
  | «instance» a => exact accounts_heldGlobal s a name

theorem Session.Builds.collect (h : x.Builds own) : x.collect.Builds own :=
  ⟨h.store.forget _, h.externals⟩

theorem Externals.Builds.replace {e : Externals} (he : e.Builds own) (name : String)
    {p : Provider} (hp : p.Builds own) : (e.replace name p).Builds own :=
  Externals.Builds.insert (fun q hq => he q (List.mem_filter.mp hq).1) name hp

theorem builds_build (hx : x.Builds own) {items : List Registration}
    (hitems : ∀ item ∈ items, item.Builds own) (withEnv : Bool) :
    Accounts own (x.build items withEnv).1 ∧ (x.build items withEnv).2.Builds own := by
  obtain ⟨hr, hs⟩ := supplies_registerAll (r := {}) hx.store
    ⟨fun _ h => absurd h List.not_mem_nil, fun _ h => absurd h List.not_mem_nil⟩ hitems
  unfold Session.build
  revert hr hs
  obtain ⟨r, s⟩ := x.store.registerAll {} items
  intro hr hs
  cases r with
  | error e => exact ⟨accounts_error (hr.1 rfl), hs, hx.externals⟩
  | ok r =>
    refine ⟨accounts_ok _, Session.Builds.collect ⟨hs, ?_⟩⟩
    have hexternals := (hr.2 r rfl).externals
    dsimp only
    split
    · exact hexternals.replace Env.name builds_env
    · exact hexternals

theorem builds_sessionInstantiate {fuel : Nat} {name : String} {m : Module} {config : Config}
    {r : Except Error (List Export)} (hx : x.Builds own)
    (h : x.instantiate fuel name m config = some (r, x')) : Accounts own r ∧ x'.Builds own := by
  obtain ⟨⟨r', s'⟩, hrun, heq⟩ := Option.map_eq_some_iff.mp h
  obtain ⟨hr', hs'⟩ := builds_instantiate hx.store hx.externals hrun
  cases r' with
  | error e =>
    cases heq
    exact ⟨accounts_error (hr' rfl), hs', hx.externals⟩
  | ok a =>
    cases heq
    exact ⟨accounts_ok _, Session.Builds.collect
      ⟨hs'.congr (fun _ => rfl) rfl, hx.externals⟩⟩

theorem Provider.Builds.run {p : Provider} (hp : p.Builds own) (hs : s.Builds own) {fuel : Nat}
    {name : String} {args : List Value} {r : Except Error (List Value)} {s' : Store}
    (h : s.invokeProvided fuel p name args = some (r, s')) : Accounts own r ∧ s'.Builds own := by
  have hnone : ∀ w ∈ ([] : List Waiting), w.Builds own := fun _ h => absurd h List.not_mem_nil
  cases p with
  | native m => exact (builds_invokeNative name args hs hp hnone).run h
  | «instance» a => exact (builds_invokeHandle a name args hs hnone).run h

/-- Whatever an embedder does, the failure that it is told of is accounted for. -/
theorem Session.Deed.accounts {e : Option Error} (hdeed : x.Deed own e x') (hx : x.Builds own) :
    (∀ {e₀ : Error}, e = some e₀ → e₀.Accounted own) ∧ x'.Builds own := by
  have hnone : ∀ w ∈ ([] : List Waiting), w.Builds own := fun _ h => absurd h List.not_mem_nil
  have hstore {α : Type} {r : Except Error α} {s : Store} (h : Accounts own r ∧ s.Builds own) :
      (∀ {e₀ : Error}, failure? r = some e₀ → e₀.Accounted own) ∧
        Session.Builds own { x with store := s } :=
    ⟨accounted_of_failure? h.1, h.2, hx.externals⟩
  have hsilent {x' : Session} (h : x'.Builds own) :
      (∀ {e₀ : Error}, none = some e₀ → e₀.Accounted own) ∧ x'.Builds own :=
    ⟨fun h => (nomatch h), h⟩
  cases hdeed with
  | build hitems withEnv =>
    obtain ⟨hr, hx'⟩ := builds_build hx hitems withEnv
    exact ⟨accounted_of_failure? hr, hx'⟩
  | provide h => exact hsilent ⟨hx.store, h⟩
  | instantiate h =>
    obtain ⟨hr, hx'⟩ := builds_sessionInstantiate hx h
    exact ⟨accounted_of_failure? hr, hx'⟩
  | drop name =>
    exact hsilent (Session.Builds.collect ⟨hx.store.congr (fun _ => rfl) rfl, hx.externals⟩)
  | takeEvents => exact hsilent ⟨hx.store.congr (fun _ => rfl) rfl, hx.externals⟩
  | invoke h => exact hstore ((builds_invokeHandle _ _ _ hx.store hnone).run h)
  | invokeIndex h => exact hstore ((builds_invokeIndex _ true _ _ hx.store hnone).run h)
  | invokeProvided hp h => exact hstore (hp.run hx.store h)
  | callFunc hcaller hf h =>
    have hcall (args : List Value) : Focus.Builds own (.call (.native _) ⟨_, args⟩) := ⟨hcaller, hf⟩
    exact hstore (Machine.Builds.run ⟨hx.store, hcall _, hnone⟩ h)
  | getGlobal p name =>
    exact hstore ⟨(accounts_providedGlobal p name).bind fun a => accounts_readGlobal _ a, hx.store⟩
  | setGlobal p name v =>
    have hprovided : Accounts own (x.store.providedGlobal p name) := accounts_providedGlobal p name
    unfold Store.setGlobal
    split
    · next a _ =>
      exact hstore ⟨accounts_assignGlobal _ a v,
        hx.store.served (Store.served_assignGlobal _ x.store a v)⟩
    · next he => exact hstore (α := Unit) ⟨accounts_error (hprovided he), hx.store⟩
  | addGlobal c => exact hsilent ⟨hx.store.congr (fun _ => rfl) rfl, hx.externals⟩
  | allocate limits maxPages =>
    have hsource : (MemberSource.memory limits maxPages).Builds own := trivial
    obtain ⟨hr, hs⟩ := supplies_member hx.store hsource
    exact hstore ⟨hr.1, hs⟩
  | growMemory a delta =>
    exact hstore ⟨accounts_growMemory _ a delta,
      hx.store.served (Store.served_growMemory _ x.store a delta)⟩
  | readMemory a offset length => exact hstore ⟨accounts_readMemory _ a offset length, hx.store⟩
  | assignMemory a offset data =>
    exact hstore ⟨accounts_assignMemory _ a offset data,
      hx.store.served (Store.served_assignMemory _ x.store a offset data)⟩
  | addTable type => exact hsilent ⟨hx.store.addTable type, hx.externals⟩
  | growTable a delta =>
    exact hstore ⟨accounts_growTable _ a delta,
      hx.store.served (Store.served_growTable _ x.store a delta)⟩
  | slot a index => exact hstore ⟨accounts_slot _ a index, hx.store⟩
  | setSlot a index h =>
    exact hstore ⟨accounts_setSlot _ a index _, hx.store.served (x.store.served_setSlot a index h)⟩

theorem Session.Arises.builds (h : x.Arises own) : x.Builds own := by
  induction h with
  | refl =>
    refine ⟨⟨fun {a table i f} htable => ?_, fun {a b} hb => ?_⟩,
      fun _ h => absurd h List.not_mem_nil⟩
    · cases (Array.getElem?_eq_some_iff.mp htable).1
    · obtain ⟨i, hi, -⟩ := Safety.exists_instance hb
      cases Safety.lt_size hi
  | tail _ hdeed ih =>
    obtain ⟨e, hdeed⟩ := hdeed
    exact (hdeed.accounts ih).2

/-! ### The taxonomy -/

/-- What is wrong with a file is one of input and output, or of parsing. -/
theorem agrees_of_ofFile {path : String} {content : Except FileFault (List UInt8)} {e : Error}
    (h : Module.ofFile path content = .error e) : e.Agrees := by
  unfold Module.ofFile at h
  cases content with
  | error f =>
    cases h
    rfl
  | ok bytes =>
    dsimp only at h
    cases hdecode : Binary.decode bytes with
    | ok m =>
      rw [hdecode] at h
      cases h
    | error e' =>
      rw [hdecode] at h
      cases h
      exact (Binary.parse_decode hdecode).agrees.context path

/-- The calls inside a call are accounted for as well. -/
theorem Machine.Builds.iterate {m : Machine} (h : m.Builds own) (n : Nat) :
    (Machine.step^[n] m).Builds own := by
  induction n generalizing m with
  | zero => exact h
  | succ n ih => exact ih h.step

/-- **The taxonomy of failures.**  Failures to decode are of parsing, and failures to validate are
of validation.  Whatever an embedder does, in any order, the failure that it is told of has the
category of its code, unless a function of the host has built it; and so has every failure that is
returned to wasm code or to a function of the host on the way.  Contexts change nothing of this. -/
theorem failures_classified :
    (∀ {input : List UInt8} {e : Error}, Binary.decode input = .error e → e.Belongs .parse) ∧
    (∀ {m : Module} {e : Error}, Validation.module m = .error e → e.Belongs .validation) ∧
    (∀ {path : String} {content : Except FileFault (List UInt8)} {e : Error},
      Module.ofFile path content = .error e → e.Agrees) ∧
    (∀ {own : Error → Prop} {x x' : Session} {e : Error}, x.Arises own → x.Deed own (some e) x' →
      e.Accounted own) ∧
    (∀ {own : Error → Prop} {m : Machine} {n : Nat} {e : Error}, m.Builds own →
      (Machine.step^[n] m).focus = .returned (.error e) → e.Accounted own) ∧
    ∀ (e : Error) (outers : List String),
      (e.contexts outers).category = e.category ∧ (e.contexts outers).code = e.code ∧
      (e.contexts outers).isParse = e.isParse ∧
      (e.contexts outers).isValidation = e.isValidation ∧
      (e.contexts outers).isLink = e.isLink ∧ (e.contexts outers).isTrap = e.isTrap := by
  refine ⟨Binary.parse_decode, fun h => Validation.invalidates_module _ h, agrees_of_ofFile,
    fun harises hdeed => (hdeed.accounts harises.builds).1 rfl, fun {own m n e} hm hfocus => ?_,
    fun e outers => ?_⟩
  · have hreturned := (hm.iterate n).focus
    rw [hfocus] at hreturned
    exact hreturned rfl
  · have hcategory := Error.category_contexts outers e
    refine ⟨hcategory, Error.code_contexts outers e, ?_, ?_, ?_, ?_⟩
    · rw [Error.isParse, hcategory, Error.isParse]
    · rw [Error.isValidation, hcategory, Error.isValidation]
    · rw [Error.isLink, hcategory, Error.isLink]
    · rw [Error.isTrap, hcategory, Error.isTrap]

/-- A failure whose category is not that of its code. -/
def refusal : Error := ⟨.trap, Code.hostFailed, "refused"⟩

/-- A module of the host whose only function refuses to be called. -/
def refuser : NativeModule :=
  ⟨"host", [("f", .func (.host ⟨[], []⟩ fun _ => .done (.error refusal)))]⟩

/-- A module that calls this function as it starts. -/
def refusedModule : Module :=
  { types := [⟨[], []⟩], imports := [⟨"host", "f", .func 0⟩], start := some 0 }

/-- Input that ends too early, a start function that is not there, a file that is not there, and a
start function that the host refuses: its failure, which does not agree with itself, reaches the
embedder with a context in front. -/
theorem refusal_excepted :
    (∃ e, Binary.decode [] = .error e ∧ e.Belongs .parse) ∧
    (∃ e, Validation.module { start := some 0 } = .error e ∧ e.Belongs .validation) ∧
    (∃ e, Module.ofFile "absent.wasm" (.error .notFound) = .error e ∧ e.Agrees) ∧
    (∃ x x' : Session, x.Arises (· = refusal) ∧
      x.Deed (· = refusal) (some (refusal.context "start function")) x' ∧
      (refusal.context "start function").Accounted (· = refusal)) ∧
    (∃ m : Machine, m.Builds (· = refusal) ∧ m.step.focus = .returned (.error refusal) ∧
      refusal.Accounted (· = refusal)) ∧
    ¬ (refusal.context "start function").Agrees := by
  obtain ⟨hdecode, hvalidate, hfile, hdeed, hrun, -⟩ := failures_classified
  have hbuilds : refuser.Builds (· = refusal) :=
    List.forall_mem_singleton.mpr fun _ => accounts_error (.inr ⟨refusal, [], rfl, rfl⟩)
  have hprovide : Session.Deed (· = refusal) {} none ⟨{}, [("host", .native refuser)]⟩ :=
    .provide (List.forall_mem_singleton.mpr hbuilds)
  have harises : Session.Arises (· = refusal) ⟨{}, [("host", .native refuser)]⟩ :=
    .single ⟨none, hprovide⟩
  have hinstantiate : Session.instantiate 10 ⟨{}, [("host", .native refuser)]⟩ "i" refusedModule {} =
      some (.error (refusal.context "start function"), _) := rfl
  have hhost : Machine.Builds (· = refusal)
      ⟨{}, .host (.native refuser) ⟨[], []⟩ (.done (.error refusal)), []⟩ :=
    ⟨(Session.Arises.builds .refl).store, ⟨hbuilds, accounts_error (.inr ⟨refusal, [], rfl, rfl⟩)⟩,
      fun _ h => absurd h List.not_mem_nil⟩
  refine ⟨⟨_, rfl, @hdecode [] _ rfl⟩, ⟨_, rfl, @hvalidate { start := some 0 } _ rfl⟩,
    ⟨_, rfl, @hfile "absent.wasm" (.error .notFound) _ rfl⟩,
    ⟨_, _, harises, .instantiate hinstantiate, hdeed harises (.instantiate hinstantiate)⟩,
    ⟨_, hhost, rfl, hrun (n := 1) hhost rfl⟩, by decide⟩

end Wasm
