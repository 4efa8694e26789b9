import Wasm.Proofs.Lockstep.Trials

/-!
# Dead code

In any store that can be reached, the instances of a module may be given the code of a trimmed one
(`Store.Recoded`).  Nothing can be seen of that: every call ends in the same way and leaves the same
objects, and so it stays (`dead_code_irrelevant`).
-/

namespace Wasm

/-! ### Instances with other code -/

/-- The bindings of an instance, with the code of another module. -/
def Bindings.recode (b : Bindings) (m : Module) : Bindings :=
  Instantiate.functions { b with module := m, funcs := b.funcs.extract 0 (m.importCount .func) }

/-- In the second store any of the instances of a module have the code of another one. -/
structure Store.Recoded (m m' : Module) (s s' : Store) : Prop where
  objects : s'.objects = s.objects
  size : s'.instances.size = s.instances.size
  instances : ∀ a : Address, s'.instance? a = s.instance? a ∨ ∃ i, s.instance? a = some i ∧
    i.bindings.module = m ∧ s'.instance? a = some { i with bindings := i.bindings.recode m' }
  handles : s'.handles = s.handles
  events : s'.events = s.events

section

variable {s s' : Store} {m m' : Module} {b : Bindings}

/-- What is imported comes first. -/
theorem Bindings.Assembled.functions_extract (h : b.Assembled) :
    Instantiate.functions { b with funcs := b.funcs.extract 0 (b.module.importCount .func) } =
      b := by
  obtain ⟨imported, hlength, hfuncs⟩ := h
  have hextract : (b.funcs.extract 0 (b.module.importCount .func)).toList =
      imported.map Func.imported := by
    rw [Array.toList_extract, hfuncs, List.extract_eq_take_drop, List.drop_zero, Nat.sub_zero,
      List.take_left' (by rw [List.length_map, hlength])]
  have happend : b.funcs.extract 0 (b.module.importCount .func) ++
      b.module.definedFuncs.toArray = b.funcs := by
    rw [← Array.toList_inj, Array.toList_append, hextract, hfuncs]
  obtain ⟨self, module, config, funcs, globals, memory, table⟩ := b
  exact congrArg (fun funcs => Bindings.mk self module config funcs globals memory table) happend

theorem Bindings.Assembled.inStep_recode {slack : Prop} (h : b.Assembled)
    (htrims : b.module.Trims m') : b.InStep slack (b.recode m') := by
  have hcount : m'.importCount .func = b.module.importCount .func := by
    rw [htrims.same]
    rfl
  have hbefore : Bindings.InStep slack
      { b with funcs := b.funcs.extract 0 (b.module.importCount .func) }
      { b with module := m', funcs := b.funcs.extract 0 (m'.importCount .func) } := by
    rw [hcount]
    exact ⟨rfl, htrims, .refl _, List.forall₂_same.mpr fun f _ => .refl f, rfl, rfl, rfl⟩
  have hfunctions := Instantiate.inStep_functions hbefore
  rw [h.functions_extract] at hfunctions
  exact hfunctions

/-- Trimmed code keeps the stores in step. -/
theorem Store.Recoded.inStep {slack : Prop} (h : s.Recoded m m' s')
    (hassembled : ∀ {a : Address} {b : Bindings}, s.bindings? a = some b → b.Assembled)
    (htrims : m.Trims m') : s.InStep slack s' := by
  refine ⟨h.objects, h.size, fun a => ?_, h.handles, h.events⟩
  rcases h.instances a with heq | ⟨i, hi, rfl, hi'⟩
  · rw [heq]
    exact (Store.InStep.refl s).instances a
  · rw [hi, hi']
    have hb : s.bindings? a = some i.bindings := by
      rw [Store.bindings?, hi]
      rfl
    exact .some ⟨(hassembled hb).inStep_recode htrims, .refl _, rfl⟩

/-- Calls in stores in step, where both have the same limits. -/
theorem Store.InStep.sameEnd (h : s.InStep False s') (p : Invocation) (fuel : Nat) (a : Address) :
    SameEnd (Store.InStep False) (p.run fuel s a) (p.run fuel s' a) := by
  rw [p.run_eq_begin, p.run_eq_begin]
  cases (p.abreast_begin a h).run (fun hslack => hslack.elim) fuel with
  | exhausted hslack => exact hslack.elim
  | same hsame => exact hsame

end

namespace Lockstep

/-- Whenever a module has been decoded and is valid, it stays valid when in any sequence of any
function, at any depth, what follows `unreachable`, `br`, `br_table` or `return` is cut off.  In
every store that can be reached and in which nothing runs, the instances of the module may be given
the trimmed code: every call, of any instance, has the same values or the same error as before and
leaves the same memories, tables and globals, and the stores stay in step.  Stores in step go on to
give the same for every call, and when the one module is instantiated in the first and the trimmed
one in the second.  In particular the two modules, instantiated in any one store and called in any
ways, show the same outcomes. -/
theorem dead_code_irrelevant {input : List UInt8} {m m' : Module}
    (hdecode : Binary.decode input = .ok m) (hvalid : Validation.module m = .ok ())
    (htrims : m.Trims m') :
    Validation.module m' = .ok () ∧
    (∀ {known : List FuncRef} {s s' : Store} {r : Except Error (List Value)},
      Safety.Reachable known ⟨s, .returned r, []⟩ → s.Recoded m m' s' →
        ∀ (p : Invocation) (a : Address) (fuel : Nat),
          SameEnd (fun t t' => t'.objects = t.objects ∧ t.InStep False t') (p.run fuel s a)
            (p.run fuel s' a)) ∧
    (∀ {s s' : Store}, s.InStep False s' →
      (∀ (p : Invocation) (a : Address) (fuel : Nat),
        SameEnd (fun t t' => t'.objects = t.objects ∧ t.InStep False t') (p.run fuel s a)
          (p.run fuel s' a)) ∧
      ∀ (fuel : Nat) (externals : Externals) (config : Config),
        Instantiate.Abreast False (s.instantiate fuel externals m config)
          (s'.instantiate fuel externals m' config)) ∧
    ∀ (fuel : Nat) (s : Store) (externals : Externals) (config : Config) (calls : List Invocation),
      s.trial fuel externals m' config calls = s.trial fuel externals m config calls := by
  have hvalid' := htrims.valid (Binary.codesRead_of_decode hdecode) hvalid
  have hcalls {s s' : Store} (h : s.InStep False s') (p : Invocation) (a : Address) (fuel : Nat) :
      SameEnd (fun t t' => t'.objects = t.objects ∧ t.InStep False t') (p.run fuel s a)
        (p.run fuel s' a) :=
    (h.sameEnd p fuel a).mono fun ht => ⟨ht.objects, ht⟩
  refine ⟨hvalid', fun hreachable hrecoded => ?_, fun {s s'} h => ⟨hcalls h, ?_⟩, ?_⟩
  · exact hcalls (hrecoded.inStep (Instantiation.assembled_of_reachable hreachable) htrims)
  · intro fuel externals config
    exact h.instantiate fuel externals htrims (.refl config) hvalid hvalid'
      fun hslack => hslack.elim
  · intro fuel s externals config calls
    exact ((Store.InStep.refl s).trial fuel externals htrims (.refl config) hvalid hvalid'
      (fun hslack => hslack.elim) calls).eq

/-! ### A function with dead code -/

/-- A module with one function, in which an addition follows a branch, and a `drop` follows
`return`. -/
def leapInput : List UInt8 :=
  [0x00, 0x61, 0x73, 0x6D, 1, 0, 0, 0, 1, 5, 1, 0x60, 0, 1, 0x7F, 3, 2, 1, 0,
    10, 14, 1, 12, 0, 0x02, 0x7F, 0x41, 7, 0x0C, 0, 0x6A, 0x0B, 0x0F, 0x1A, 0x0B]

def leapBody : Expr :=
  [.block .block (.value .i32) [.plain (.const .i32) (.value (.i32 7)), .plain .br (.index 0),
    .plain (.intBinary .w32 .add) .none], .plain .ret .none, .plain .drop .none]

def leapModule : Module :=
  { types := [⟨[], [.i32]⟩]
    functions := [0]
    codes := [⟨[], leapBody⟩] }

/-- Without the addition and the `drop`. -/
def trimmedBody : Expr :=
  [.block .block (.value .i32) [.plain (.const .i32) (.value (.i32 7)), .plain .br (.index 0)],
    .plain .ret .none]

def trimmedModule : Module :=
  { leapModule with codes := [⟨[], trimmedBody⟩] }

theorem decode_leap : Binary.decode leapInput = .ok leapModule := by
  have htypes : Binary.Reader.oneSection (M := Binary.Reader) 0 {} ⟨8, leapInput.drop 8⟩ =
    .ok ((1, { types := leapModule.types }), ⟨15, leapInput.drop 15⟩) := rfl
  have hfunctions : Binary.Reader.oneSection (M := Binary.Reader) 1 { types := leapModule.types }
      ⟨15, leapInput.drop 15⟩ =
    .ok ((3, { leapModule with codes := [] }), ⟨19, leapInput.drop 19⟩) := rfl
  have hcodes : Binary.Reader.oneSection (M := Binary.Reader) 3 { leapModule with codes := [] }
      ⟨19, leapInput.drop 19⟩ = .ok ((10, leapModule), ⟨35, []⟩) := rfl
  have hmodule : Binary.Reader.module (M := Binary.Reader) (Binary.Cursor.start leapInput) =
      Binary.Reader.sections (M := Binary.Reader) 27 0 {} ⟨8, leapInput.drop 8⟩ :=
    Binary.module_header (leapInput.drop 8)
  unfold Binary.decode
  rw [hmodule, Binary.sections_of_oneSection htypes (by decide),
    Binary.sections_of_oneSection hfunctions (by decide),
    Binary.sections_of_oneSection hcodes (by decide)]
  rfl

theorem leap_trims : leapModule.Trims trimmedModule := by
  have hinner := Expr.trims_append (.br 0) [.plain (.const .i32) (.value (.i32 7))]
    [.plain (.intBinary .w32 .add) .none]
  exact ⟨rfl, .cons ⟨rfl, .cons (.block .block (.value .i32) hinner) (.cut .ret _)⟩ .nil⟩

/-- The only instance, with either code. -/
def leap (m : Module) (body : Expr) : Store :=
  ⟨{}, #[some ⟨⟨0, m, {}, #[.defined ⟨[], [.i32]⟩ 0 body], #[], none, none⟩, .idle {}, false⟩],
    [], []⟩

theorem reachable_leap :
    Safety.Reachable [] ⟨leap leapModule leapBody, .returned (.ok []), []⟩ := by
  have hvalid : Validation.module leapModule = .ok () := rfl
  have hexternals {name : String} {p : Provider} (h : List.lookup name ([] : Externals) = some p) :
      p.Held [] := nomatch h
  have himports : Instantiate.imports {} [] ⟨0, leapModule, {}, #[], #[], none, none⟩
      leapModule.imports = .ok ⟨0, leapModule, {}, #[], #[], none, none⟩ := rfl
  have hsetup : Instantiate.setup ⟨0, leapModule, {}, #[], #[], none, none⟩ {} =
    .ok ⟨0, leapModule, {}, #[.defined ⟨[], [.i32]⟩ 0 leapBody], #[], none, none⟩ {} := rfl
  exact .act .start (.link decode_leap hvalid hexternals himports hsetup)

theorem leap_recoded : (leap leapModule leapBody).Recoded leapModule trimmedModule
    (leap trimmedModule trimmedBody) := by
  refine ⟨rfl, rfl, fun a => ?_, rfl, rfl⟩
  cases a with
  | zero => exact .inr ⟨_, rfl, rfl, rfl⟩
  | succ a => exact .inl rfl

/-- The trimmed module is valid, and its function returns 7 as the other one does. -/
theorem leap_trimmed_same : Validation.module trimmedModule = .ok () ∧
    ∃ t, (Invocation.indexed 0 []).run 10 (leap trimmedModule trimmedBody) 0 =
      some (.ok [.i32 7], t) ∧ t.objects = {} := by
  have hrun : (Invocation.indexed 0 []).run 10 (leap leapModule leapBody) 0 =
    some (.ok [.i32 7], leap leapModule leapBody) := rfl
  obtain ⟨hvalid, hcalls, -⟩ := dead_code_irrelevant decode_leap rfl leap_trims
  have hsame := hcalls reachable_leap leap_recoded (.indexed 0 []) 0 10
  rw [hrun] at hsame
  obtain ⟨t, hrun', hobjects, -⟩ := hsame.left
  exact ⟨hvalid, t, hrun', hobjects⟩

end Lockstep

end Wasm
