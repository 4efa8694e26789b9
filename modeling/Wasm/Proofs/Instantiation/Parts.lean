import Wasm.Proofs.Instantiation.Linkage

/-!
# The parts of an instantiation

What each part of an instantiation does to the objects, exactly: globals and a memory or a table are
appended, and a segment is written whole if it fits and not at all if it does not.  A part that runs
on each item of a list stops at the first one that fails, with the work for the items before it done
(`each_cases`).
-/

namespace Wasm.Instantiation

open Instantiate (Setup)

/-! ### Runs -/

section Runs

variable {α β : Type} {o o' : Objects} {part : Setup α} {f : α → Setup β}

theorem setup_bind_ok {a : α} (h : part o = .ok a o') : (part >>= f) o = f a o' := by
  show EStateM.bind part f o = _
  rw [EStateM.bind, h]

theorem setup_bind_error {e : Error} (h : part o = .error e o') :
    (part >>= f) o = .error e o' := by
  show EStateM.bind part f o = _
  rw [EStateM.bind, h]

/-- A part for each item stops at the first item that fails; what it has done for the items before
that one stays done. -/
theorem each_cases {part : Nat → α → Setup Unit} {write : Objects → α → Objects}
    {Inv : Objects → Prop} {Good : α → Prop} {code : Nat} {items : List α}
    (hpart : ∀ {index x o}, x ∈ items → Inv o →
      Good x ∧ part index x o = .ok () (write o x) ∧ Inv (write o x) ∨
      ¬ Good x ∧ ∃ e, part index x o = .error e o ∧ e.code = code)
    {index : Nat} (h : Inv o) :
    (∀ x ∈ items, Good x) ∧ Inv (items.foldl write o) ∧
        Instantiate.each part index items o = .ok () (items.foldl write o) ∨
      ∃ before x after, items = before ++ x :: after ∧ (∀ y ∈ before, Good y) ∧ ¬ Good x ∧
        ∃ e, Instantiate.each part index items o = .error e (before.foldl write o) ∧
          e.code = code := by
  induction items generalizing o index with
  | nil => exact .inl ⟨fun _ h => (nomatch h), h, rfl⟩
  | cons x rest ih =>
    have heach : Instantiate.each part index (x :: rest) o =
      (part index x >>= fun _ => Instantiate.each part (index + 1) rest) o := rfl
    rcases hpart (List.mem_cons_self ..) h with ⟨hgood, hrun, hinv⟩ | ⟨hbad, e, hrun, hcode⟩
    · rw [heach, setup_bind_ok hrun]
      rcases ih (fun hx => hpart (List.mem_cons_of_mem _ hx)) hinv with
        ⟨hall, hinv', hrest⟩ | ⟨before, y, after, rfl, hbefore, hbad, e, hrest, hcode⟩
      · exact .inl ⟨List.forall_mem_cons.mpr ⟨hgood, hall⟩, hinv', hrest⟩
      · exact .inr ⟨x :: before, y, after, rfl, List.forall_mem_cons.mpr ⟨hgood, hbefore⟩, hbad,
          e, hrest, hcode⟩
    · rw [heach, setup_bind_error hrun]
      exact .inr ⟨[], x, rest, rfl, fun _ h => (nomatch h), hbad, e, rfl, hcode⟩

end Runs

/-! ### Globals -/

variable {m : Module} {o : Objects} {cells : List Cell}

/-- One more cell, at the next address. -/
theorem Cells.push {b : Bindings} (h : Cells m o b.globals cells) {c : Cell}
    (htypes : (cells ++ [c]).map Cell.type <+: m.globalTypes) :
    Cells m { o with globals := o.globals.push c } (b.globals.push o.globals.size)
      (cells ++ [c]) := by
  refine ⟨?_, htypes⟩
  rw [Array.toList_push]
  refine Safety.forall₂_concat (h.held.imp fun a c' hc' => ?_) (by simp)
  show (o.globals.push c)[a]? = some c'
  obtain ⟨hlt, -⟩ := Array.getElem?_eq_some_iff.mp hc'
  rw [Array.getElem?_push_lt hlt, ← hc', Array.getElem?_eq_getElem hlt]

/-- A global with a value is one more cell, and the others follow. -/
theorem globals_cons {g : Global} {rest : List Global} {index : Nat} {b : Bindings} {v : Value}
    (hv : Instantiate.constant o b.globals g.init = .ok v) :
    Instantiate.globals b index (g :: rest) o =
      Instantiate.globals { b with globals := b.globals.push o.globals.size } (index + 1) rest
        { o with globals := o.globals.push ⟨g.type.isMutable, v⟩ } := by
  have hinit : Instantiate.within s!"global[{index}]"
      (Instantiate.lift (Instantiate.constant o b.globals g.init)) o = .ok v o :=
    Safety.within_ok _ (by rw [hv]; rfl)
  have hunfold : Instantiate.globals b index (g :: rest) o =
      (Instantiate.within s!"global[{index}]"
        (Instantiate.lift (Instantiate.constant o b.globals g.init)) >>= fun v => do
          set { o with globals := o.globals.push ⟨g.type.isMutable, v⟩ }
          Instantiate.globals { b with globals := b.globals.push o.globals.size } (index + 1)
            rest) o := rfl
  rw [hunfold, setup_bind_ok hinit]
  rfl

/-- The globals of the module are created one after another, in new cells. -/
theorem globals_eq {gs : List Global} {index : Nat} {b : Bindings}
    (hcells : Cells m o b.globals cells)
    (htypes : m.globalTypes = cells.map Cell.type ++ gs.map Global.type)
    (haccepted : ∀ {k g}, gs[k]? = some g →
      Accepted m g.type.valueType (cells.length + k) g.init) :
    ∃ addresses new, initialCells cells gs = some (cells ++ new) ∧
      m.globalTypes = (cells ++ new).map Cell.type ∧
      Cells m { o with globals := o.globals ++ new.toArray } addresses (cells ++ new) ∧
      Instantiate.globals b index gs o =
        .ok { b with globals := addresses } { o with globals := o.globals ++ new.toArray } := by
  induction gs generalizing b o cells index with
  | nil =>
    rw [List.map_nil, List.append_nil] at htypes
    refine ⟨b.globals, [], ?_, ?_, ?_, ?_⟩
    · rw [List.append_nil]
      rfl
    · rw [List.append_nil]
      exact htypes
    · rw [List.append_nil, Array.append_empty]
      exact hcells
    · rw [Array.append_empty]
      rfl
  | cons g rest ih =>
    have hfirst : Accepted m g.type.valueType cells.length g.init := haccepted (k := 0) rfl
    obtain ⟨v, hv, hvtype⟩ := hfirst.exists_value hcells.visible
    have hvalue := valueOf?_eq hcells hfirst (Nat.le_refl _) hv
    let c : Cell := ⟨g.type.isMutable, v⟩
    have hctype : c.type = g.type := by
      show GlobalType.mk v.type g.type.isMutable = g.type
      rw [hvtype]
    have htypes' : m.globalTypes = (cells ++ [c]).map Cell.type ++ rest.map Global.type := by
      rw [htypes, List.map_append, List.append_assoc, List.map_cons, ← hctype]
      rfl
    have hcells' := hcells.push ⟨_, htypes'.symm⟩
    have haccepted' {k : Nat} {g' : Global} (hg' : rest[k]? = some g') :
        Accepted m g'.type.valueType ((cells ++ [c]).length + k) g'.init := by
      have h := haccepted (k := k + 1) hg'
      rw [List.length_append, List.length_singleton, Nat.add_assoc, Nat.add_comm 1 k]
      exact h
    obtain ⟨addresses, new, hinitial, hall, hheld, hrun⟩ :=
      @ih _ _ (index + 1) { b with globals := b.globals.push o.globals.size } hcells' htypes'
        haccepted'
    -- The cells of the rest come behind the new one, which is the first of all of them.
    have happend : cells ++ [c] ++ new = cells ++ c :: new := List.append_assoc ..
    have hpush : o.globals.push c ++ new.toArray = o.globals ++ (c :: new).toArray := by
      apply Array.toList_inj.mp
      simp
    rw [happend] at hinitial hall hheld
    dsimp only at hheld hrun
    rw [hpush] at hheld hrun
    refine ⟨addresses, c :: new, ?_, hall, hheld, ?_⟩
    · rw [initialCells, hvalue]
      exact hinitial
    · rw [globals_cons hv]
      exact hrun

/-! ### Memories and tables -/

theorem appendPages_zero (k pages : Nat) :
    Memory.appendPages ⟨Array.replicate k 0⟩ pages =
      ⟨Array.replicate (k + pages * Memory.pageSize) 0⟩ := by
  induction pages generalizing k with
  | zero => simp [Memory.appendPages]
  | succ pages ih =>
    have happend : (⟨Array.replicate k 0⟩ : ByteArray) ++ Memory.zeroPage =
        ⟨Array.replicate (k + Memory.pageSize) 0⟩ := by
      apply ByteArray.ext
      rw [ByteArray.data_append]
      exact Array.replicate_append_replicate
    rw [Memory.appendPages, happend, ih]
    congr 2
    rw [Nat.succ_mul]
    omega

variable {l : Linkage} {b : Bindings}

namespace Linkage

theorem allocate_eq {limits : Limits} (h : limits.min ≤ l.config.maxMemoryPages) :
    Memory.allocate limits l.config.maxMemoryPages = .ok (l.newMemory limits) := by
  unfold Memory.allocate newMemory
  rw [if_neg (UInt32.not_lt.mpr h)]
  have hempty : ByteArray.empty = ⟨Array.replicate 0 0⟩ := rfl
  rw [hempty, appendPages_zero, Nat.zero_add]

theorem memory_eq_ok (haffordable : l.Affordable) (hmodule : b.module = l.module)
    (hconfig : b.config = l.config)
    (himported : b.memory = (l.members.filterMap Member.memory?).getLast?)
    (ho : o.memories = l.store.objects.memories) :
    Instantiate.memory b o =
      .ok { b with memory := l.memoryAt? } { o with memories := l.memories } := by
  unfold Instantiate.memory memoryAt? memories
  rw [hmodule]
  unfold Affordable at haffordable
  cases hmemories : l.module.memories with
  | nil =>
    dsimp only
    rw [← himported, ← ho, ← hmodule]
    rfl
  | cons limits rest =>
    rw [hmemories] at haffordable
    dsimp only
    rw [hconfig, allocate_eq (haffordable limits (List.mem_cons_self ..)), ← ho]
    rfl

theorem memory_eq_error (hsingle : l.module.count .memory ≤ 1) (haffordable : ¬ l.Affordable)
    (hmodule : b.module = l.module) (hconfig : b.config = l.config) :
    ∃ e, Instantiate.memory b o = .error e o ∧ e.code = Code.resourceLimit := by
  unfold Instantiate.memory
  rw [hmodule, hconfig]
  unfold Affordable at haffordable
  rw [Module.count] at hsingle
  cases hmemories : l.module.memories with
  | nil =>
    rw [hmemories] at haffordable
    exact absurd (List.forall_mem_nil _) haffordable
  | cons limits rest =>
    obtain rfl : rest = [] := by
      rw [hmemories, List.length_cons] at hsingle
      exact List.length_eq_zero_iff.mp (by omega)
    rw [hmemories, List.forall_mem_singleton, UInt32.not_le] at haffordable
    have hallocate : ∃ e, Memory.allocate limits l.config.maxMemoryPages = .error e ∧
        e.code = Code.resourceLimit := ⟨_, if_pos haffordable, rfl⟩
    obtain ⟨e, he, hcode⟩ := hallocate
    refine ⟨e, ?_, hcode⟩
    dsimp only
    rw [he]
    rfl

theorem table_eq_ok (hmodule : b.module = l.module)
    (himported : b.table = (l.members.filterMap Member.table?).getLast?)
    (ho : o.tables = l.store.objects.tables) :
    Instantiate.table b o = .ok { b with table := l.tableAt? } { o with tables := l.tables } := by
  unfold Instantiate.table tableAt? tables
  rw [hmodule]
  cases htables : l.module.tables with
  | nil =>
    dsimp only
    rw [← himported, ← ho, ← hmodule]
    rfl
  | cons type rest =>
    dsimp only
    rw [← ho]
    rfl

end Linkage

end Wasm.Instantiation
