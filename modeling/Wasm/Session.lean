import Wasm.Embedding
import Wasm.Host.Env
import Wasm.Host.Registry

/-!
Sessions.  A session is a store together with what keeps its instances alive: the named handles, and
the externals that the next module is linked against.  An instance that neither of them holds is
gone, although functions of it may still be in tables.
-/

namespace Wasm

/-- A store and what its embedder holds. -/
structure Session where
  store : Store := {}
  externals : Externals := []

/-- A member to be looked up or created. -/
inductive MemberSource where
  /-- What an instance exports under a name. -/
  | exported (a : Address) (name : String)
  | memory (limits : Limits) (maxPages : UInt32)
  | table (limits : Limits)
  | func (signature : String) (run : List Value → Proc)

/-- Something to be registered for the externals. -/
inductive Registration where
  | function (module signature : String) (run : List Value → Proc)
  | global (module name : String) (value : Value) (isMutable : Bool)
  | member (module name : String) (source : MemberSource)
  | instance (module : String) (a : Address)
  | native (module : String)

namespace Store

/-- Looks up or creates a member. -/
def member (s : Store) : MemberSource → Except Error Member × Store
  | .exported a name =>
    match s.provided? (.instance a) name with
    | some m => (.ok m, s)
    | none => (.error (exportNotFound "member" name), s)
  | .memory limits maxPages =>
    match Memory.allocate limits maxPages with
    | .error e => (.error e, s)
    | .ok m =>
      let (a, s) := s.addMemory m
      (.ok (.memory a), s)
  | .table limits =>
    let (a, s) := s.addTable (.allocate ⟨limits⟩)
    (.ok (.table a), s)
  | .func signature run =>
    (match Signature.parse signature with
      | .ok (_, type) => .ok (.func (.host type run))
      | .error e => .error e, s)

/-- Makes one registration. -/
def register (s : Store) (r : Registry) : Registration → Except Error Registry × Store
  | .function module signature run => (r.change module (·.register signature run), s)
  | .global module name value isMutable =>
    let (a, s) := s.addGlobal ⟨isMutable, value⟩
    (r.change module (·.define name (.global a)), s)
  | .member module name source =>
    match s.member source with
    | (.error e, s) => (.error e, s)
    | (.ok m, s) => (r.change module (·.define name m), s)
  | .instance module a => (r.add module (.instance a), s)
  | .native module => (r.add module (.native { name := module }), s)

/-- Makes registrations in their order. -/
def registerAll (s : Store) (r : Registry) : List Registration → Except Error Registry × Store
  | [] => (.ok r, s)
  | x :: rest =>
    match s.register r x with
    | (.error e, s) => (.error e, s)
    | (.ok r, s) => s.registerAll r rest

end Store

namespace Session

/-- Whether a handle or a provider holds an instance. -/
def holds (x : Session) (a : Address) : Bool :=
  x.store.handles.any (·.2 = a) || x.externals.any fun
    | (_, .instance b) => b = a
    | _ => false

/-- Gives up the instances that nothing holds. -/
def collect (x : Session) : Session :=
  { x with store := { x.store with
    instances := x.store.instances.mapIdx fun a i => if x.holds a then i else none } }

/-- Makes new externals; the old ones stay if a registration fails. -/
def build (x : Session) (items : List Registration) (withEnv : Bool) :
    Except Error (List String) × Session :=
  match x.store.registerAll {} items with
  | (.error e, s) => (.error e, { x with store := s })
  | (.ok r, s) =>
    let externals :=
      if withEnv then r.externals.replace Env.name (.native Env.module) else r.externals
    (.ok (externals.map Prod.fst), collect ⟨s, externals⟩)

/-- Instantiates a module against the externals.  If that succeeds, the handle with the given name
holds the new instance. -/
def instantiate (fuel : Nat) (x : Session) (name : String) (m : Module) (config : Config) :
    Option (Except Error (List Export) × Session) :=
  (x.store.instantiate fuel x.externals m config).map fun
    | (.error e, s) => (.error e, { x with store := s })
    | (.ok a, s) =>
      let handles := (name, a) :: s.handles.filter (·.1 ≠ name)
      (.ok m.exports, collect { x with store := { s with handles := handles } })

/-- Gives up a handle. -/
def drop (x : Session) (name : String) : Session :=
  collect { x with store := { x.store with handles := x.store.handles.filter (·.1 ≠ name) } }

/-- The events of the session so far, the first one first, and the session without them. -/
def takeEvents (x : Session) : List Event × Session :=
  (x.store.events.reverse, { x with store := { x.store with events := [] } })

end Session

end Wasm
