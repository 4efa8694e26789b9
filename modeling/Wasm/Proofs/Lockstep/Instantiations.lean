import Wasm.Proofs.Lockstep.Alone
import Wasm.Proofs.Lockstep.Machines

/-!
# Instantiations in step

A module and a trimmed one, or one module with limits of different heights, are instantiated in
step: they are linked to the same members, the same segments are written, and their start functions
run alike (`Store.InStep.instantiate`).
-/

namespace Wasm

variable {slack : Prop}

/-! ### Nothing changed -/

theorem FramesInStep.refl {loose : Nat → Prop} (frames : List Frame) :
    FramesInStep loose frames frames := by
  induction frames with
  | nil => exact .nil
  | cons f below ih =>
    exact .cons ⟨rfl, rfl, rfl, rfl, rfl, .refl _, .inr ⟨.refl _, rfl⟩⟩ ih

theorem Thread.InStep.refl {loose : Nat → Prop} (t : Thread) : t.InStep slack loose t :=
  ⟨⟨rfl, .refl ..⟩, .refl _, rfl, rfl⟩

theorem Config.InStep.refl (c : Config) : c.InStep slack c :=
  ⟨.refl .., .refl .., rfl⟩

theorem Bindings.InStep.refl (b : Bindings) : b.InStep slack b :=
  ⟨rfl, .refl _, .refl _, List.forall₂_same.mpr fun f _ => .refl f, rfl, rfl, rfl⟩

theorem Instance.InStep.refl (i : Instance) : i.InStep slack i :=
  ⟨.refl _, .refl _, rfl⟩

/-- A store is in step with itself. -/
theorem Store.InStep.refl (s : Store) : s.InStep slack s := by
  refine ⟨rfl, rfl, fun a => ?_, rfl, rfl⟩
  cases s.instance? a with
  | none => exact .none
  | some i => exact .some (.refl i)

/-! ### Imports -/

namespace Instantiate

/-- Two computations of bindings fail alike, or give bindings in step. -/
inductive Bound (slack : Prop) : Except Error Bindings → Except Error Bindings → Prop
  | ok {b b' : Bindings} (h : b.InStep slack b') : Bound slack (.ok b) (.ok b')
  | error (e : Error) : Bound slack (.error e) (.error e)

variable {s s' : Store} {b b' : Bindings} {o : Objects}

theorem inStep_bind (h : b.InStep slack b') (x : Member) :
    (bind b x).InStep slack (bind b' x) := by
  cases x with
  | func f =>
    refine ⟨h.self, h.module, h.config, ?_, h.globals, h.memory, h.table⟩
    show List.Forall₂ _ (b.funcs.push (.imported f)).toList (b'.funcs.push (.imported f)).toList
    rw [Array.toList_push, Array.toList_push]
    exact List.rel_append h.funcs (.cons (.imported f) .nil)
  | global a =>
    exact ⟨h.self, h.module, h.config, h.funcs, congrArg (·.push a) h.globals, h.memory, h.table⟩
  | memory a => exact ⟨h.self, h.module, h.config, h.funcs, h.globals, rfl, h.table⟩
  | table a => exact ⟨h.self, h.module, h.config, h.funcs, h.globals, h.memory, rfl⟩

theorem bound_imports (hs : s.InStep slack s') (externals : Externals) (list : List Import)
    (h : b.InStep slack b') :
    Bound slack (imports s externals b list) (imports s' externals b' list) := by
  induction list generalizing b b' with
  | nil => exact .ok h
  | cons imp rest ih =>
    have hresolve : resolve s' externals b'.module.types imp =
        resolve s externals b.module.types imp := by
      unfold resolve
      rw [h.types, hs.objects]
      cases externals.lookup imp.module with
      | none => rfl
      | some p =>
        dsimp only
        rw [hs.provided?]
    unfold imports
    rw [hresolve]
    cases resolve s externals b.module.types imp with
    | error e => exact .error e
    | ok x => exact ih (inStep_bind h x)

/-! ### Setting up -/

/-- Two parts of an instantiation fail alike, or give bindings in step and the same objects. -/
inductive Built (slack : Prop) : EStateM.Result Error Objects Bindings →
    EStateM.Result Error Objects Bindings → Prop
  | ok {b b' : Bindings} {o : Objects} (h : b.InStep slack b') : Built slack (.ok b o) (.ok b' o)
  | error (e : Error) (o : Objects) : Built slack (.error e o) (.error e o)

theorem Built.bind {c c' : Setup Bindings} {f f' : Bindings → Setup Bindings}
    (h : Built slack (c o) (c' o))
    (hf : ∀ {b b' : Bindings} {o : Objects}, b.InStep slack b' → Built slack (f b o) (f' b' o)) :
    Built slack ((c >>= f) o) ((c' >>= f') o) := by
  show Built slack (EStateM.bind c f o) (EStateM.bind c' f' o)
  unfold EStateM.bind
  generalize c o = r at h
  generalize c' o = r' at h
  cases h with
  | ok h => exact hf h
  | error e o => exact .error e o

/-- The same part comes first. -/
theorem built_after {α : Type} (c : Setup α) {f f' : α → Setup Bindings}
    (hf : ∀ a o, Built slack (f a o) (f' a o)) : Built slack ((c >>= f) o) ((c >>= f') o) := by
  show Built slack (EStateM.bind c f o) (EStateM.bind c f' o)
  unfold EStateM.bind
  cases c o with
  | ok a o => exact hf a o
  | error e o => exact .error e o

theorem built_globals (h : b.InStep slack b') (index : Nat) (list : List Global) (o : Objects) :
    Built slack (globals b index list o) (globals b' index list o) := by
  induction list generalizing b b' index o with
  | nil => exact .ok h
  | cons g rest ih =>
    unfold globals
    rw [h.globals]
    refine built_after get fun o₁ o => built_after _ fun v o => built_after (set _) fun _ o => ?_
    refine ih ?_ _ o
    exact ⟨h.self, h.module, h.config, h.funcs, rfl, h.memory, h.table⟩

theorem built_memory (h : b.InStep slack b') (o : Objects) :
    Built slack (memory b o) (memory b' o) := by
  have hmemories : b'.module.memories = b.module.memories := by rw [h.module.same]
  unfold memory
  rw [hmemories, h.config.maxMemoryPages]
  cases b.module.memories with
  | nil => exact .ok h
  | cons limits rest =>
    refine built_after _ fun m o => .ok ?_
    exact ⟨h.self, h.module, h.config, h.funcs, h.globals, rfl, h.table⟩

theorem built_table (h : b.InStep slack b') (o : Objects) :
    Built slack (table b o) (table b' o) := by
  have htables : b'.module.tables = b.module.tables := by rw [h.module.same]
  unfold table
  rw [htables]
  cases b.module.tables with
  | nil => exact .ok h
  | cons type rest => exact .ok ⟨h.self, h.module, h.config, h.funcs, h.globals, h.memory, rfl⟩

theorem dataSegment_congr (h : b.InStep slack b') : dataSegment b' = dataSegment b := by
  funext index d
  unfold dataSegment
  rw [h.globals, h.memoryAt]

theorem elementSegment_congr (h : b.InStep slack b') : elementSegment b' = elementSegment b := by
  have hreferences (index : Nat) (list : List UInt32) :
      references b' index list = references b index list := by
    induction list with
    | nil => rfl
    | cons i rest ih =>
      unfold references
      rw [h.funcRef?, ih]
  funext index e
  unfold elementSegment
  rw [h.globals, h.tableAt, hreferences]

/-- The functions of a trimmed module. -/
theorem trims_definedFuncs {m m' : Module} (h : m.Trims m') :
    List.Forall₂ Func.Trims m.definedFuncs m'.definedFuncs := by
  have hfunctions : m'.functions = m.functions := by rw [h.same]
  have htypes : m'.types = m.types := by rw [h.same]
  have hcodes := h.codes
  unfold Module.definedFuncs
  rw [hfunctions, htypes]
  generalize m.functions = indices
  generalize m.codes = codes at hcodes
  generalize m'.codes = codes' at hcodes
  induction hcodes generalizing indices with
  | nil =>
    rw [List.zip_nil_right]
    exact .nil
  | @cons code code' _ _ hcode _ ih =>
    cases indices with
    | nil => exact .nil
    | cons t indices =>
      have hcount : code'.localCount = code.localCount := by
        rw [Code.localCount, Code.localCount, hcode.locals]
      rw [List.zip_cons_cons, List.zip_cons_cons, List.map_cons, List.map_cons]
      dsimp only
      rw [hcount]
      exact .cons (.defined hcode.body) (ih indices)

/-- They come after what is imported. -/
theorem inStep_functions (h : b.InStep slack b') :
    (functions b).InStep slack (functions b') := by
  refine ⟨h.self, h.module, h.config, ?_, h.globals, h.memory, h.table⟩
  show List.Forall₂ _ (b.funcs ++ b.module.definedFuncs.toArray).toList
    (b'.funcs ++ b'.module.definedFuncs.toArray).toList
  rw [Array.toList_append, Array.toList_append, List.toList_toArray, List.toList_toArray]
  exact List.rel_append h.funcs (trims_definedFuncs h.module)

theorem built_setup (h : b.InStep slack b') (o : Objects) :
    Built slack (setup b o) (setup b' o) := by
  have hglobals : b'.module.globals = b.module.globals := by rw [h.module.same]
  unfold setup
  rw [hglobals]
  refine (built_globals h 0 _ o).bind fun {b₁ b₁' o} h => (built_memory h o).bind
    fun {b₂ b₂' o} h => ?_
  have hdata : b₂'.module.data = b₂.module.data := by rw [h.module.same]
  rw [hdata, dataSegment_congr h]
  refine built_after _ fun _ o => (built_table (inStep_functions h) o).bind fun {b₃ b₃' o} h => ?_
  have helements : b₃'.module.elements = b₃.module.elements := by rw [h.module.same]
  rw [helements, elementSegment_congr h]
  exact built_after _ fun _ o => .ok h

end Instantiate

/-! ### Linking and starting -/

variable {s s' : Store} {m m' : Module} {config config' : Config}

theorem Store.InStep.push (h : s.InStep slack s') (o : Objects) {i i' : Option Instance}
    (hi : Option.Rel (Instance.InStep slack) i i') : Store.InStep slack
      ⟨o, s.instances.push i, s.handles, s.events⟩
      ⟨o, s'.instances.push i', s'.handles, s'.events⟩ := by
  refine ⟨rfl, ?_, fun a => ?_, h.handles, h.events⟩
  · show (s'.instances.push i').size = (s.instances.push i).size
    rw [Array.size_push, Array.size_push, h.size]
  · show Option.Rel _ ((s.instances.push i)[a]?).join ((s'.instances.push i')[a]?).join
    rw [Array.getElem?_push, Array.getElem?_push, h.size]
    split
    · exact hi
    · exact h.instances a

/-- Instances come to be in step. -/
theorem Store.InStep.link (h : s.InStep slack s') (externals : Externals) (htrims : m.Trims m')
    (hconfig : config.InStep slack config') (hvalid : Validation.module m = .ok ())
    (hvalid' : Validation.module m' = .ok ()) :
    (s'.link externals m' config').1 = (s.link externals m config).1 ∧
      (s.link externals m config).2.InStep slack (s'.link externals m' config').2 := by
  have himports : m'.imports = m.imports := by rw [htrims.same]
  have hnew : Bindings.InStep slack ⟨s.instances.size, m, config, #[], #[], none, none⟩
      ⟨s'.instances.size, m', config', #[], #[], none, none⟩ :=
    ⟨h.size, htrims, hconfig, .nil, rfl, rfl, rfl⟩
  unfold Store.link
  rw [hvalid, hvalid', himports]
  dsimp only
  have hbound := Instantiate.bound_imports h externals m.imports hnew
  generalize Instantiate.imports s externals _ m.imports = r at hbound
  generalize Instantiate.imports s' externals _ m.imports = r' at hbound
  cases hbound with
  | error e => exact ⟨rfl, h⟩
  | @ok b b' hb =>
    dsimp only
    rw [h.objects]
    have hbuilt := Instantiate.built_setup hb s.objects
    generalize Instantiate.setup b s.objects = r at hbuilt
    generalize Instantiate.setup b' s.objects = r' at hbuilt
    cases hbuilt with
    | error e o => exact ⟨rfl, h.push o .none⟩
    | ok hb =>
      have hidle : (Thread.idle config).InStep slack Tight (.idle config') :=
        ⟨⟨rfl, hconfig.maxOperandStack⟩, .nil, rfl, rfl⟩
      exact ⟨congrArg Except.ok h.size, h.push _ (.some ⟨hb, hidle, rfl⟩)⟩

/-- An instance is taken away again. -/
theorem Store.InStep.setInstance (h : s.InStep slack s') (a : Address) :
    (s.setInstance a none).InStep slack (s'.setInstance a none) := by
  refine ⟨h.objects, ?_, fun a' => ?_, h.handles, h.events⟩
  · show (s'.instances.setIfInBounds a none).size = (s.instances.setIfInBounds a none).size
    rw [Array.size_setIfInBounds, Array.size_setIfInBounds, h.size]
  · show Option.Rel _ ((s.instances.setIfInBounds a none)[a']?).join
      ((s'.instances.setIfInBounds a none)[a']?).join
    rw [Array.getElem?_setIfInBounds, Array.getElem?_setIfInBounds, h.size]
    split
    · split <;> exact .none
    · exact h.instances a'

/-- Two instantiations: the start function of the first one ends at a limit that the second one need
not meet, or both end alike. -/
inductive Instantiate.Abreast (slack : Prop) : Option (Except Error Address × Store) →
    Option (Except Error Address × Store) → Prop
  | exhausted {e : Error} {t : Store} {x' : Option (Except Error Address × Store)} (hslack : slack)
      (he : e.Exhausted) : Abreast slack (some (.error e, t)) x'
  | none : Abreast slack none none
  | some (r : Except Error Address) {t t' : Store} (h : t.InStep slack t') :
      Abreast slack (some (r, t)) (some (r, t'))

/-- Modules are instantiated in step.  Where the first start function may meet a limit on its own,
the instance calls nothing else. -/
theorem Store.InStep.instantiate (h : s.InStep slack s') (fuel : Nat) (externals : Externals)
    (htrims : m.Trims m') (hconfig : config.InStep slack config')
    (hvalid : Validation.module m = .ok ()) (hvalid' : Validation.module m' = .ok ())
    (halone : slack → (s.link externals m config).2.Alone s.instances.size) :
    Instantiate.Abreast slack (s.instantiate fuel externals m config)
      (s'.instantiate fuel externals m' config') := by
  obtain ⟨hresult, hlinked⟩ := h.link externals htrims hconfig hvalid hvalid'
  have hstart : m'.start = m.start := by rw [htrims.same]
  have hsize {a : Address} (ha : (s.link externals m config).1 = .ok a) : a = s.instances.size :=
    (Instantiation.Linkage.link_eq_ok (l := ⟨s, externals, m, config⟩) ha).2.1
  rw [Store.instantiate_eq, Store.instantiate_eq]
  generalize s.link externals m config = r at hresult hlinked hsize halone
  generalize s'.link externals m' config' = r' at hresult hlinked
  obtain ⟨result, t⟩ := r
  obtain ⟨result', t'⟩ := r'
  obtain rfl : result' = result := hresult
  cases result' with
  | error e => exact .some _ hlinked
  | ok a =>
    unfold Store.afterLink Store.start
    rw [hstart]
    cases hindex : m.start with
    | none => exact .some _ hlinked
    | some index =>
      obtain rfl := hsize rfl
      have hrun := (Machine.abreast_invokeIndex _ true index [] hlinked .nil).run
        (fun hslack m₁ hm₁ =>
          ((Machine.alone_invokeIndex (halone hslack) true index []).within hm₁).waiting) fuel
      dsimp only
      cases hrun with
      | exhausted hslack he hx =>
        rw [hx]
        exact .exhausted hslack he
      | same hsame =>
        generalize Machine.run fuel _ = x at hsame
        generalize Machine.run fuel _ = x' at hsame
        cases hsame with
        | none => exact .none
        | @some r u u' hu =>
          cases r with
          | ok values => exact .some _ hu
          | error e => exact .some _ (hu.setInstance _)

end Wasm
