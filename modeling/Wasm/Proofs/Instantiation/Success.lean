import Wasm.Proofs.Instantiation.Outcome

/-!
# When an instantiation succeeds

Up to the start function an instantiation is a function of what it starts from (`Store.link`).  It
succeeds exactly if the imports are resolved, the memory is affordable and every segment fits, and
else the first of these that does not hold determines the code of the failure.
-/

namespace Wasm

/-- An instantiation up to the start function. -/
def Store.link (s : Store) (externals : Externals) (m : Module) (config : Config) :
    Except Error Address × Store :=
  match Validation.module m with
  | .error e => (.error e, s)
  | .ok () =>
    match Instantiate.imports s externals ⟨s.instances.size, m, config, #[], #[], none, none⟩
        m.imports with
    | .error e => (.error e, s)
    | .ok b =>
      match Instantiate.setup b s.objects with
      | .error e o => (.error e, ⟨o, s.instances.push none, s.handles, s.events⟩)
      | .ok b o =>
        (.ok s.instances.size,
          ⟨o, s.instances.push (some ⟨b, .idle config, false⟩), s.handles, s.events⟩)

/-- The rest of an instantiation: a failure of the start function takes the instance away again. -/
def Store.afterLink (fuel : Nat) (m : Module) :
    Except Error Address × Store → Option (Except Error Address × Store)
  | (.error e, s) => some (.error e, s)
  | (.ok a, s) =>
    (s.start fuel a m.start).map fun
      | (.ok (), s) => (.ok a, s)
      | (.error e, s) => (.error e, s.setInstance a none)

theorem Store.instantiate_eq (fuel : Nat) (s : Store) (externals : Externals) (m : Module)
    (config : Config) :
    s.instantiate fuel externals m config = afterLink fuel m (s.link externals m config) := by
  obtain ⟨objects, instances, handles, events⟩ := s
  unfold instantiate link
  cases Validation.module m with
  | error e => rfl
  | ok _ =>
    dsimp only
    cases Instantiate.imports ⟨objects, instances, handles, events⟩ externals
        ⟨instances.size, m, config, #[], #[], none, none⟩ m.imports with
    | error e => rfl
    | ok b =>
      dsimp only
      cases Instantiate.setup b objects <;> rfl

namespace Instantiation.Linkage

variable {l : Linkage}

/-- What there is when the start function is called, or when the instantiation has failed. -/
def link (l : Linkage) : Except Error Address × Store :=
  l.store.link l.externals l.module l.config

/-- The start function, if there is one, returns without an error. -/
def Starts (l : Linkage) : Prop :=
  ∀ {f}, l.module.start = some f → ∃ fuel values s,
    (Machine.invokeIndex l.link.2 l.store.instances.size true f [] []).run fuel =
      some (.ok values, s)

/-! ### Up to the start function -/

theorem link_of_invalid {e : Error} (h : Validation.module l.module = .error e) :
    l.link = (.error e, l.store) := by
  rw [link, Store.link, h]

theorem link_of_unresolved (hvalid : Validation.module l.module = .ok ()) (h : ¬ l.Resolved) :
    ∃ e, l.link = (.error e, l.store) ∧ e.code ∈ linkCodes := by
  obtain ⟨e, hrun, hcode⟩ := imports_eq_error
    (b := ⟨l.store.instances.size, l.module, l.config, #[], #[], none, none⟩) rfl h
  exact ⟨e, by rw [link, Store.link, hvalid]; dsimp only; rw [hrun], hcode⟩

theorem link_of_resolved (hvalid : Validation.module l.module = .ok ()) (h : l.Resolved) :
    l.link = match Instantiate.setup l.bound l.store.objects with
      | .error e o => (.error e, ⟨o, l.store.instances.push none, l.store.handles, l.store.events⟩)
      | .ok b o => (.ok l.store.instances.size,
          ⟨o, l.store.instances.push (some ⟨b, .idle l.config, false⟩), l.store.handles,
            l.store.events⟩) := by
  have hrun : Instantiate.imports l.store l.externals
      ⟨l.store.instances.size, l.module, l.config, #[], #[], none, none⟩ l.module.imports =
      .ok l.bound := imports_eq_ok rfl h
  rw [link, Store.link, hvalid]
  dsimp only
  rw [hrun]

/-- The conditions under which nothing fails before the start function. -/
structure Linkable (l : Linkage) : Prop where
  resolved : l.Resolved
  affordable : l.Affordable
  fits : ∀ seg ∈ l.module.segments, l.Fits seg

/-- What is wrong with an instantiation that fails before the start function, and with which
code. -/
inductive Refused (l : Linkage) (code : Nat) : Prop where
  | unresolved (h : ¬ l.Resolved) (hcode : code ∈ linkCodes)
  | unaffordable (hresolved : l.Resolved) (h : ¬ l.Affordable) (hcode : code = Code.resourceLimit)
  | misfit (hresolved : l.Resolved) (haffordable : l.Affordable) {before after : List Segment}
      {seg : Segment} (hsplit : l.module.segments = before ++ seg :: after)
      (hbefore : ∀ seg ∈ before, l.Fits seg) (h : ¬ l.Fits seg) (hcode : code = seg.code)

theorem Refused.not_linkable {code : Nat} (h : l.Refused code) : ¬ l.Linkable := by
  intro hlinkable
  cases h with
  | unresolved h _ => exact h hlinkable.resolved
  | unaffordable _ h _ => exact h hlinkable.affordable
  | misfit _ _ hsplit _ h _ =>
    refine h (hlinkable.fits _ ?_)
    rw [hsplit]
    exact List.mem_append_right _ (List.mem_cons_self ..)

/-- Either nothing fails before the start function, or something is wrong. -/
theorem link_cases (hread : Binary.ConstantsRead l.module)
    (hvalid : Validation.module l.module = .ok ()) :
    (l.Linkable ∧ ∃ s, l.link = (.ok l.store.instances.size, s)) ∨
      ∃ e s, l.link = (.error e, s) ∧ l.Refused e.code := by
  have hchecked := checked_of_module hread hvalid
  by_cases hresolved : l.Resolved
  · rw [link_of_resolved hvalid hresolved]
    by_cases haffordable : l.Affordable
    · obtain ⟨cells, new, addresses, -, -, ⟨hfits, hrun⟩ |
        ⟨before, seg, after, hsplit, hbefore, hmiss, e, hrun, hcode⟩⟩ :=
        setup_affordable hresolved hchecked haffordable
      · rw [hrun]
        exact .inl ⟨⟨hresolved, haffordable, hfits⟩, _, rfl⟩
      · rw [hrun]
        exact .inr ⟨e, _, rfl, .misfit hresolved haffordable hsplit hbefore hmiss hcode⟩
    · obtain ⟨e, new, hrun, hcode⟩ := setup_unaffordable hresolved hchecked haffordable
      rw [hrun]
      exact .inr ⟨e, _, rfl, .unaffordable hresolved haffordable hcode⟩
  · obtain ⟨e, hlink, hcode⟩ := link_of_unresolved hvalid hresolved
    exact .inr ⟨e, _, hlink, .unresolved hresolved hcode⟩

/-! ### The start function -/

theorem start_eq_ok_iff {fuel : Nat} {s s' : Store} {a : Address} {index : Option UInt32} :
    s.start fuel a index = some (.ok (), s') ↔
      index = none ∧ s = s' ∨ ∃ f values, index = some f ∧
        (Machine.invokeIndex s a true f [] []).run fuel = some (.ok values, s') := by
  unfold Store.start
  cases index with
  | none => simp
  | some f =>
    rw [Option.map_eq_some_iff]
    constructor
    · rintro ⟨⟨result, s''⟩, hrun, heq⟩
      cases result with
      | error e => cases heq
      | ok values =>
        cases heq
        exact .inr ⟨f, values, rfl, hrun⟩
    · rintro (⟨h, -⟩ | ⟨f', values, h, hrun⟩)
      · cases h
      · cases h
        exact ⟨_, hrun, rfl⟩

theorem start_eq_error_iff {fuel : Nat} {s s' : Store} {a : Address} {index : Option UInt32}
    {e : Error} : s.start fuel a index = some (.error e, s') ↔
      ∃ f e', index = some f ∧ e = e'.context "start function" ∧
        (Machine.invokeIndex s a true f [] []).run fuel = some (.error e', s') := by
  unfold Store.start
  cases index with
  | none => simp
  | some f =>
    rw [Option.map_eq_some_iff]
    constructor
    · rintro ⟨⟨result, s''⟩, hrun, heq⟩
      cases result with
      | error e' =>
        cases heq
        exact ⟨f, e', rfl, rfl, hrun⟩
      | ok values => cases heq
    · rintro ⟨f', e', h, rfl, hrun⟩
      cases h
      exact ⟨_, hrun, rfl⟩

/-- What is instantiated is linked, and its start function returns. -/
theorem instantiate_eq_ok {fuel : Nat} {a : Address} {s' : Store} :
    l.store.instantiate fuel l.externals l.module l.config = some (.ok a, s') ↔
      ∃ s, l.link = (.ok a, s) ∧ s.start fuel a l.module.start = some (.ok (), s') := by
  rw [Store.instantiate_eq]
  show Store.afterLink fuel l.module l.link = _ ↔ _
  obtain ⟨result, s⟩ := l.link
  cases result with
  | error e =>
    constructor
    · intro h
      cases h
    · rintro ⟨s₁, h, -⟩
      cases h
  | ok a' =>
    rw [Store.afterLink, Option.map_eq_some_iff]
    constructor
    · rintro ⟨⟨started, s''⟩, hstart, heq⟩
      cases started with
      | error e => cases heq
      | ok _ =>
        cases heq
        exact ⟨s, rfl, hstart⟩
    · rintro ⟨s₁, h, hstart⟩
      cases h
      exact ⟨_, hstart, rfl⟩

/-- An instantiation of a decoded and valid module succeeds if and only if every import names a
matching member, the memory is affordable, every segment fits, and the start function returns
without an error.  Else it fails: for any number of steps with the code of the first of these that
does not hold, or with the error of the start function.  No constant that validation accepts fails,
and its value has the type that it is checked at. -/
theorem instantiate_succeeds_iff {input : List UInt8} (hdecode : Binary.decode input = .ok l.module)
    (hvalid : Validation.module l.module = .ok ()) :
    ((∃ fuel a s, l.store.instantiate fuel l.externals l.module l.config = some (.ok a, s)) ↔
      l.Linkable ∧ l.Starts) ∧
    (¬ l.Linkable → ∃ e s, l.Refused e.code ∧ ∀ fuel,
      l.store.instantiate fuel l.externals l.module l.config = some (.error e, s)) ∧
    (l.Linkable → ∀ fuel e s,
      l.store.instantiate fuel l.externals l.module l.config = some (.error e, s) →
      ∃ f e' s', l.module.start = some f ∧ e = e'.context "start function" ∧
        (Machine.invokeIndex l.link.2 l.store.instances.size true f [] []).run fuel =
          some (.error e', s')) ∧
    ∀ e ∈ l.module.constants, ∀ {t visible o addresses},
      Validation.constant l.module t visible e = .ok () → Visible l.module o addresses visible →
      ∃ v, Instantiate.constant o addresses e = .ok v ∧ v.type = t := by
  have hread := Binary.constantsRead_of_decode hdecode
  refine ⟨?_, fun hnot => ?_, fun hlinkable fuel e s hrun => ?_,
    fun e he t visible o addresses hcheck hvisible =>
      (accepted_of_constant (hread.suited he) hcheck).exists_value hvisible⟩
  · simp only [instantiate_eq_ok]
    constructor
    · rintro ⟨fuel, a, s', s, hlink, hstart⟩
      rcases link_cases hread hvalid with ⟨hlinkable, s₁, hlink'⟩ | ⟨e, s₁, hlink', -⟩
      · obtain ⟨ha, rfl⟩ := Prod.mk.inj (hlink.symm.trans hlink')
        cases ha
        refine ⟨hlinkable, fun {f} hf => ?_⟩
        rw [start_eq_ok_iff] at hstart
        rcases hstart with ⟨hnone, -⟩ | ⟨f', values, hf', hrun⟩
        · cases hnone.symm.trans hf
        · cases hf'.symm.trans hf
          exact ⟨fuel, values, s', by rw [hlink]; exact hrun⟩
      · cases hlink.symm.trans hlink'
    · rintro ⟨hlinkable, hstarts⟩
      rcases link_cases hread hvalid with ⟨-, s, hlink⟩ | ⟨e, s, -, hrefused⟩
      · cases hf : l.module.start with
        | none => exact ⟨0, _, s, s, hlink, rfl⟩
        | some f =>
          obtain ⟨fuel, values, s', hrun⟩ := hstarts hf
          rw [hlink] at hrun
          exact ⟨fuel, _, s', s, hlink, start_eq_ok_iff.mpr (.inr ⟨f, values, rfl, hrun⟩)⟩
      · exact absurd hlinkable hrefused.not_linkable
  · rcases link_cases hread hvalid with ⟨hlinkable, -⟩ | ⟨e, s, hlink, hrefused⟩
    · exact absurd hlinkable hnot
    · refine ⟨e, s, hrefused, fun fuel => ?_⟩
      rw [Store.instantiate_eq]
      show Store.afterLink fuel l.module l.link = _
      rw [hlink]
      rfl
  · rcases link_cases hread hvalid with ⟨-, s₁, hlink⟩ | ⟨e, s₁, -, hrefused⟩
    · rw [Store.instantiate_eq] at hrun
      replace hrun : Store.afterLink fuel l.module l.link = some (.error e, s) := hrun
      rw [hlink, Store.afterLink, Option.map_eq_some_iff] at hrun
      obtain ⟨⟨started, s'⟩, hstart, heq⟩ := hrun
      cases started with
      | ok _ => cases heq
      | error e' =>
        cases heq
        obtain ⟨f, e', hf, he, hfail⟩ := start_eq_error_iff.mp hstart
        rw [hlink]
        exact ⟨f, e', s', hf, he, hfail⟩
    · exact absurd hlinkable hrefused.not_linkable

/-! ### A module with two element segments -/

/-- A module that imports a global and a table with 4 slots, and puts its only function into slot 2
and then into two slots from the value of the global on. -/
def spreadInput : List UInt8 :=
  [0x00, 0x61, 0x73, 0x6D, 1, 0, 0, 0, 1, 5, 1, 0x60, 0, 1, 0x7F,
    2, 16, 2, 1, 97, 1, 103, 3, 0x7F, 0, 1, 97, 1, 116, 1, 0x70, 0, 4, 3, 2, 1, 0,
    9, 14, 2, 0, 0x41, 2, 0x0B, 1, 0, 0, 0x23, 0, 0x0B, 2, 0, 0, 10, 6, 1, 4, 0, 0x41, 7, 0x0B]

def spreadModule : Module :=
  { types := [⟨[], [.i32]⟩]
    imports := [⟨"a", "g", .global ⟨.i32, false⟩⟩, ⟨"a", "t", .table ⟨⟨4, none⟩⟩⟩]
    functions := [0]
    elements := [⟨0, [.plain (.const .i32) (.value (.i32 2))], [0]⟩,
      ⟨0, [.plain .globalGet (.index 0)], [0, 0]⟩]
    codes := [⟨[], [.plain (.const .i32) (.value (.i32 7))]⟩] }

/-- A table with 4 empty slots, and a global with the given value. -/
def spread (base : UInt32) : Linkage where
  store := ⟨⟨#[], #[.allocate ⟨⟨4, none⟩⟩], #[⟨false, .i32 base⟩]⟩, #[], [], []⟩
  externals := [("a", .native ⟨"a", [("g", .global 0), ("t", .table 0)]⟩)]
  module := spreadModule
  config := {}

theorem decode_spread : Binary.decode spreadInput = .ok spreadModule := by
  have htypes : Binary.Reader.oneSection (M := Binary.Reader) 0 {} ⟨8, spreadInput.drop 8⟩ =
    .ok ((1, { types := spreadModule.types }), ⟨15, spreadInput.drop 15⟩) := rfl
  have himports : Binary.Reader.oneSection (M := Binary.Reader) 1 { types := spreadModule.types }
      ⟨15, spreadInput.drop 15⟩ =
    .ok ((2, { spreadModule with functions := [], elements := [], codes := [] }),
      ⟨33, spreadInput.drop 33⟩) := rfl
  have hfunctions : Binary.Reader.oneSection (M := Binary.Reader) 2
      { spreadModule with functions := [], elements := [], codes := [] } ⟨33, spreadInput.drop 33⟩ =
    .ok ((3, { spreadModule with elements := [], codes := [] }), ⟨37, spreadInput.drop 37⟩) := rfl
  have helements : Binary.Reader.oneSection (M := Binary.Reader) 3
      { spreadModule with elements := [], codes := [] } ⟨37, spreadInput.drop 37⟩ =
    .ok ((9, { spreadModule with codes := [] }), ⟨53, spreadInput.drop 53⟩) := rfl
  have hcodes : Binary.Reader.oneSection (M := Binary.Reader) 9
      { spreadModule with codes := [] } ⟨53, spreadInput.drop 53⟩ =
    .ok ((10, spreadModule), ⟨61, spreadInput.drop 61⟩) := rfl
  have hmodule : Binary.Reader.module (M := Binary.Reader) (Binary.Cursor.start spreadInput) =
      Binary.Reader.sections (M := Binary.Reader) 53 0 {} ⟨8, spreadInput.drop 8⟩ :=
    Binary.module_header (spreadInput.drop 8)
  unfold Binary.decode
  rw [hmodule, Binary.sections_of_oneSection htypes (by decide),
    Binary.sections_of_oneSection himports (by decide),
    Binary.sections_of_oneSection hfunctions (by decide),
    Binary.sections_of_oneSection helements (by decide),
    Binary.sections_of_oneSection hcodes (by decide)]
  rfl

theorem resolved_spread (base : UInt32) : (spread base).Resolved := by
  intro imp himp
  cases himp with
  | head => exact ⟨.global 0, rfl, .global (c := ⟨false, .i32 base⟩) rfl rfl⟩
  | tail _ himp =>
    cases himp with
    | head => exact ⟨.table 0, rfl, .table (t := .allocate ⟨⟨4, none⟩⟩) rfl (by decide)⟩
    | tail _ himp => cases himp

/-- The two segments overlap in slot 2, and both fit. -/
theorem spread_succeeds : ∃ fuel a s,
    (spread 1).store.instantiate fuel (spread 1).externals spreadModule {} = some (.ok a, s) := by
  have hvalid : Validation.module spreadModule = .ok () := rfl
  obtain ⟨hsucceeds, -⟩ := @instantiate_succeeds_iff (spread 1) _ decode_spread hvalid
  refine hsucceeds.mpr ⟨⟨resolved_spread 1, nofun, fun seg hseg => ?_⟩, nofun⟩
  cases hseg with
  | head => exact ⟨2, 4, rfl, rfl, by decide⟩
  | tail _ hseg =>
    cases hseg with
    | head => exact ⟨1, 4, rfl, rfl, by decide⟩
    | tail _ hseg => cases hseg

end Instantiation.Linkage

end Wasm
