import Wasm.Proofs.Execution.Objects
import Wasm.Proofs.Instantiation.Outcome

/-!
# Extents of memories and tables

A memory and a table are created at their minimal size and never shrink.  They grow up to their
maximum, and a memory up to the bound of its creator as well.  All of this is about their `Extent`,
which has nothing to do with what they hold.  Objects evolve (`Objects.Evolves`): what is there
keeps its limits and its bound and is never smaller than before, and what is new is within its
limits.
-/

namespace Wasm

namespace Limits

/-- A minimum that is not above the maximum. -/
def Ordered (l : Limits) : Prop :=
  ∀ max, l.max = some max → l.min ≤ max

/-- A size that is not below the minimum, nor above the maximum if there is one. -/
structure Admits (l : Limits) (size : UInt32) : Prop where
  min_le : l.min ≤ size
  le_max : ∀ max, l.max = some max → size ≤ max

theorem fits_refl (l : Limits) : l.Fits l :=
  ⟨UInt32.le_refl _, fun max h => ⟨max, h, UInt32.le_refl _⟩⟩

theorem Fits.trans {l₁ l₂ l₃ : Limits} (h : l₁.Fits l₂) (h' : l₂.Fits l₃) : l₁.Fits l₃ := by
  refine ⟨UInt32.le_trans h'.1 h.1, fun r hr => ?_⟩
  obtain ⟨q, hq, hle⟩ := h'.2 r hr
  obtain ⟨p, hp, hle'⟩ := h.2 q hq
  exact ⟨p, hp, UInt32.le_trans hle' hle⟩

end Limits

/-! ### Extents -/

/-- How large a memory or a table is, and how large it may become. -/
structure Extent where
  limits : Limits
  bound : UInt32
  size : Nat

namespace Extent

/-- A size within the limits and the bound.  The maximum counts unless it is below the minimum. -/
structure Contained (x : Extent) : Prop where
  min_le : x.limits.min.toNat ≤ x.size
  le_bound : x.size ≤ x.bound.toNat
  le_max : x.limits.Ordered → ∀ max, x.limits.max = some max → x.size ≤ max.toNat

/-- What can become of an extent. -/
structure Becomes (x y : Extent) : Prop where
  limits : y.limits = x.limits
  bound : y.bound = x.bound
  size_le : x.size ≤ y.size
  contained : x.Contained → y.Contained

variable {x y z : Extent}

theorem becomes_refl (x : Extent) : x.Becomes x :=
  ⟨rfl, rfl, Nat.le_refl _, id⟩

theorem Becomes.trans (h : x.Becomes y) (h' : y.Becomes z) : x.Becomes z :=
  ⟨h'.limits.trans h.limits, h'.bound.trans h.bound, Nat.le_trans h.size_le h'.size_le,
    fun hx => h'.contained (h.contained hx)⟩

/-- The minimal size, if the bound allows it. -/
theorem contained_min {limits : Limits} {bound : UInt32} (h : limits.min ≤ bound) :
    Contained ⟨limits, bound, limits.min.toNat⟩ :=
  ⟨Nat.le_refl _, h, fun hordered max hmax => hordered max hmax⟩

/-- Growth by a number that neither the maximum nor the bound forbids. -/
theorem becomes_grow {delta : Nat} (hbound : x.Contained → x.size + delta ≤ x.bound.toNat)
    (hmax : x.Contained → ∀ max, x.limits.max = some max → x.size + delta ≤ max.toNat) :
    x.Becomes { x with size := x.size + delta } :=
  ⟨rfl, rfl, Nat.le_add_right .., fun h => ⟨Nat.le_add_right_of_le h.min_le, hbound h,
    fun _ => hmax h⟩⟩

/-- The size as a 32-bit number. -/
theorem Contained.toNat_size (h : x.Contained) : (UInt32.ofNat x.size).toNat = x.size :=
  UInt32.toNat_ofNat_of_lt' (Nat.lt_of_le_of_lt h.le_bound x.bound.toNat_lt)

/-- Limits that were matched stay matched whatever becomes of the extent. -/
theorem Becomes.admits {required : Limits} (h : x.Becomes y) (hx : x.Contained)
    (hordered : x.limits.Ordered)
    (hfits : Limits.Fits ⟨.ofNat x.size, x.limits.max⟩ required) :
    required.Admits (.ofNat y.size) := by
  have hy := h.contained hx
  constructor
  case min_le =>
    have hmin : required.min.toNat ≤ (UInt32.ofNat x.size).toNat := hfits.1
    rw [hx.toNat_size] at hmin
    show required.min.toNat ≤ (UInt32.ofNat y.size).toNat
    rw [hy.toNat_size]
    exact Nat.le_trans hmin h.size_le
  case le_max =>
    intro max hmax
    obtain ⟨p, hp, hle⟩ := hfits.2 max hmax
    show (UInt32.ofNat y.size).toNat ≤ max.toNat
    rw [hy.toNat_size]
    refine Nat.le_trans (hy.le_max ?_ p ?_) hle
    · rwa [h.limits]
    · rw [h.limits]
      exact hp

end Extent

/-! ### Memories -/

namespace Memory

/-- The number of pages. -/
def pages (m : Memory) : Nat :=
  m.bytes.size / pageSize

/-- The extent of a memory, in pages. -/
def extent (m : Memory) : Extent :=
  ⟨m.limits, m.maxPages, m.pages⟩

variable {m m' : Memory}

theorem size_appendPages (bytes : ByteArray) (pages : Nat) :
    (appendPages bytes pages).size = bytes.size + pages * pageSize := by
  induction pages generalizing bytes with
  | zero => simp [appendPages]
  | succ pages ih =>
    have hpage : zeroPage.size = pageSize := Array.size_replicate
    rw [appendPages, ih, ByteArray.size_append, hpage, Nat.succ_mul]
    omega

theorem pages_appendPages (bytes : ByteArray) (pages : Nat) :
    (appendPages bytes pages).size / pageSize = bytes.size / pageSize + pages := by
  rw [size_appendPages, Nat.add_mul_div_right _ _ (by decide)]

/-- A new memory is within its limits, and has the bound that it is given. -/
theorem extent_allocate {limits : Limits} {maxPages : UInt32}
    (h : allocate limits maxPages = .ok m) :
    m.extent.Contained ∧ m.limits = limits ∧ m.maxPages = maxPages := by
  unfold allocate at h
  split at h
  · cases h
  · next hle =>
    cases h
    refine ⟨?_, rfl, rfl⟩
    have hempty : ByteArray.empty.size / pageSize = 0 := rfl
    have hpages := pages_appendPages ByteArray.empty limits.min.toNat
    rw [hempty, Nat.zero_add] at hpages
    show Extent.Contained ⟨limits, maxPages,
      (appendPages ByteArray.empty limits.min.toNat).size / pageSize⟩
    rw [hpages]
    exact Extent.contained_min (UInt32.not_lt.mp hle)

/-- Writing does not change the extent. -/
theorem extent_put (m : Memory) (offset : Nat) (data : List UInt8) :
    (m.put offset data).extent = m.extent := by
  show Extent.mk m.limits m.maxPages ((setBytes m.bytes offset data).size / pageSize) = _
  rw [size_setBytes]
  rfl

/-- A memory that grows stays below its maximum and its bound. -/
theorem becomes_grow {delta old : UInt32} (h : m.grow delta = .ok (old, m')) :
    m.extent.Becomes m'.extent ∧ m'.pages = m.pages + delta.toNat := by
  unfold grow at h
  split at h
  · next hle =>
    cases h
    have hpages : (appendPages m.bytes delta.toNat).size / pageSize = m.pages + delta.toNat :=
      pages_appendPages ..
    have hextent : extent { m with bytes := appendPages m.bytes delta.toNat } =
        { m.extent with size := m.extent.size + delta.toNat } := congrArg (Extent.mk _ _) hpages
    have hfits (hm : m.extent.Contained) : m.pages + delta.toNat ≤ m.bound.toNat := by
      have hsize : m.size.toNat = m.pages := hm.toNat_size
      rw [← hsize]
      exact hle
    have hbound : m.bound ≤ m.maxPages := Std.min_le_right
    rw [hextent]
    refine ⟨Extent.becomes_grow (fun hm => Nat.le_trans (hfits hm) hbound) fun hm max hmax =>
      Nat.le_trans (hfits hm) ?_, hpages⟩
    replace hmax : m.limits.max = some max := hmax
    have hle : m.bound ≤ m.limits.max.getD 4294967295 := Std.min_le_left
    rw [hmax] at hle
    exact hle
  · cases h

end Memory

/-! ### Tables -/

namespace Table

/-- The extent of a table, in slots; nothing but the maximum bounds it, and the numbers of slots. -/
def extent (t : Table) : Extent :=
  ⟨t.type.limits, 4294967295, t.slots.size⟩

variable {t t' : Table}

theorem toNat_le_bound (n : UInt32) : n.toNat ≤ (4294967295 : UInt32).toNat := by
  have hbound : (4294967295 : UInt32).toNat = 4294967295 := rfl
  have hlt := n.toNat_lt
  omega

theorem extent_allocate (type : TableType) : (allocate type).extent.Contained := by
  have hextent : (allocate type).extent = ⟨type.limits, 4294967295, type.limits.min.toNat⟩ :=
    congrArg (Extent.mk _ _) Array.size_replicate
  rw [hextent]
  exact Extent.contained_min (toNat_le_bound type.limits.min)

theorem extent_put (t : Table) (offset : Nat) (funcs : List FuncRef) :
    (t.put offset funcs).extent = t.extent := by
  have htype : (t.put offset funcs).type = t.type := by
    induction funcs generalizing t offset with
    | nil => rfl
    | cons f rest ih => exact ih _ _
  rw [extent, htype, size_put]
  rfl

theorem extent_set {index : UInt32} {f : Option FuncRef} (h : t.set index f = .ok t') :
    t'.extent = t.extent := by
  unfold set at h
  split at h
  · cases h
    exact congrArg (Extent.mk _ _) (Array.size_setIfInBounds ..)
  · cases h

/-- A table that grows stays below its maximum. -/
theorem becomes_grow {delta old : UInt32} (h : t.grow delta = .ok (old, t')) :
    t.extent.Becomes t'.extent := by
  unfold grow at h
  split at h
  · next hle =>
    cases h
    have hslots : (t.slots ++ Array.replicate delta.toNat none).size =
        t.slots.size + delta.toNat := by
      rw [Array.size_append, Array.size_replicate]
    have hextent : extent { t with slots := t.slots ++ Array.replicate delta.toNat none } =
        { t.extent with size := t.extent.size + delta.toNat } := congrArg (Extent.mk _ _) hslots
    have hfits (ht : t.extent.Contained) : t.slots.size + delta.toNat ≤ t.bound.toNat := by
      have hsize : t.size.toNat = t.slots.size := ht.toNat_size
      rw [← hsize]
      exact hle
    rw [hextent]
    refine Extent.becomes_grow (fun ht => Nat.le_trans (hfits ht) (toNat_le_bound t.bound))
      fun ht max hmax => Nat.le_trans (hfits ht) ?_
    replace hmax : t.type.limits.max = some max := hmax
    rw [bound, hmax]
    exact Nat.le_refl _
  · cases h

end Table

/-! ### Objects -/

/-- Items that have grown: what was there has become what is there, and what is new is within its
limits. -/
structure Grown {α : Type} (extent : α → Extent) (xs ys : Array α) : Prop where
  kept : ∀ {k : Nat} {x : α}, xs[k]? = some x →
    ∃ y, ys[k]? = some y ∧ (extent x).Becomes (extent y)
  new : ∀ {k : Nat} {y : α}, xs[k]? = none → ys[k]? = some y → (extent y).Contained

section Grown

variable {α : Type} {extent : α → Extent} {xs ys zs : Array α} {k : Nat} {x y : α}

theorem grown_refl (xs : Array α) : Grown extent xs xs :=
  ⟨fun {_ x} hx => ⟨x, hx, Extent.becomes_refl _⟩, fun hnone hy => nomatch hnone.symm.trans hy⟩

theorem Grown.trans (h : Grown extent xs ys) (h' : Grown extent ys zs) : Grown extent xs zs := by
  refine ⟨fun {k x} hx => ?_, fun {k z} hnone hz => ?_⟩
  · obtain ⟨y, hy, hbecomes⟩ := h.kept hx
    obtain ⟨z, hz, hbecomes'⟩ := h'.kept hy
    exact ⟨z, hz, hbecomes.trans hbecomes'⟩
  · cases hy : ys[k]? with
    | none => exact h'.new hy hz
    | some y =>
      obtain ⟨z', hz', hbecomes⟩ := h'.kept hy
      obtain rfl := Option.some.inj (hz.symm.trans hz')
      exact hbecomes.contained (h.new hnone hy)

theorem grown_push (xs : Array α) (hx : (extent x).Contained) : Grown extent xs (xs.push x) := by
  refine ⟨fun {k y} hy => ⟨y, ?_, Extent.becomes_refl _⟩, fun {k y} hnone hy => ?_⟩
  · obtain ⟨hlt, rfl⟩ := Array.getElem?_eq_some_iff.mp hy
    exact Array.getElem?_push_lt hlt
  · rw [Array.getElem?_push] at hy
    split at hy
    · cases hy
      exact hx
    · cases hnone.symm.trans hy

/-- One item has been replaced by what it has become. -/
theorem grown_set (hx : xs[k]? = some x) (h : (extent x).Becomes (extent y)) :
    Grown extent xs (xs.setIfInBounds k y) := by
  refine ⟨fun {k' x'} hx' => ?_, fun {k' y'} hnone hy' => ?_⟩
  · rw [Array.getElem?_setIfInBounds]
    split
    · next hk =>
      subst hk
      obtain rfl := Option.some.inj (hx.symm.trans hx')
      rw [if_pos (Array.getElem?_eq_some_iff.mp hx).1]
      exact ⟨y, rfl, h⟩
    · exact ⟨x', hx', Extent.becomes_refl _⟩
  · rw [Array.getElem?_setIfInBounds] at hy'
    split at hy'
    · next hk =>
      subst hk
      cases hnone.symm.trans hx
    · cases hnone.symm.trans hy'

/-- One item has been changed, but not its extent. -/
theorem grown_modify (xs : Array α) (k : Nat) {f : α → α} (hf : ∀ x, extent (f x) = extent x) :
    Grown extent xs (xs.modify k f) := by
  refine ⟨fun {k' x} hx => ?_, fun {k' y} hnone hy => ?_⟩
  · rw [Array.getElem?_modify]
    split
    · exact ⟨f x, congrArg (Option.map f) hx, by rw [hf]; exact Extent.becomes_refl _⟩
    · exact ⟨x, hx, Extent.becomes_refl _⟩
  · rw [Array.getElem?_modify] at hy
    split at hy
    · rw [hnone] at hy
      cases hy
    · cases hnone.symm.trans hy

end Grown

namespace Objects

/-- Memories and tables have grown. -/
structure Evolves (o o' : Objects) : Prop where
  memories : Grown Memory.extent o.memories o'.memories
  tables : Grown Table.extent o.tables o'.tables

variable {o o' o'' : Objects}

theorem evolves_refl (o : Objects) : o.Evolves o :=
  ⟨grown_refl _, grown_refl _⟩

theorem Evolves.trans (h : o.Evolves o') (h' : o'.Evolves o'') : o.Evolves o'' :=
  ⟨h.memories.trans h'.memories, h.tables.trans h'.tables⟩

theorem evolves_of_eq (hmemories : o'.memories = o.memories) (htables : o'.tables = o.tables) :
    o.Evolves o' :=
  ⟨hmemories ▸ grown_refl _, htables ▸ grown_refl _⟩

theorem evolves_putMemory {a : Address} {m m' : Memory} (hm : o.memories[a]? = some m)
    (h : m.extent.Becomes m'.extent) : o.Evolves (o.putMemory a m') :=
  ⟨grown_set hm h, grown_refl _⟩

theorem evolves_putTable {a : Address} {t t' : Table} (ht : o.tables[a]? = some t)
    (h : t.extent.Becomes t'.extent) : o.Evolves (o.putTable a t') :=
  ⟨grown_refl _, grown_set ht h⟩

theorem evolves_putBytes (o : Objects) (a : Address) (offset : Nat) (data : List UInt8) :
    o.Evolves (o.putBytes a offset data) :=
  ⟨grown_modify o.memories a fun m => Memory.extent_put m offset data, grown_refl _⟩

theorem evolves_putSlots (o : Objects) (a : Address) (offset : Nat) (funcs : List FuncRef) :
    o.Evolves (o.putSlots a offset funcs) :=
  ⟨grown_refl _, grown_modify o.tables a fun t => Table.extent_put t offset funcs⟩

/-- Whatever code writes, memories and tables grow within their limits. -/
theorem Write.evolves (h : o.Write o') : o.Evolves o' := by
  cases h with
  | global h =>
    obtain ⟨c, c', -, -, rfl⟩ := setGlobal_eq_ok_iff.mp h
    exact evolves_of_eq rfl rfl
  | bytes h =>
    obtain ⟨m, -, -, rfl⟩ := writeMemory_eq_ok_iff.mp h
    exact evolves_putBytes ..
  | grow hm h => exact evolves_putMemory (memory_eq_ok_iff.mp hm) (Memory.becomes_grow h).1

theorem Writes.evolves (h : o.Writes o') : o.Evolves o' := by
  induction h with
  | refl => exact evolves_refl o
  | tail _ hwrite ih => exact ih.trans hwrite.evolves

theorem Change.evolves {G : FuncRef → Prop} (h : o.Change G o') : o.Evolves o' := by
  cases h with
  | write h => exact h.evolves
  | growTable ht h => exact evolves_putTable (table_eq_ok_iff.mp ht) (Table.becomes_grow h)
  | setSlot ht h _ =>
    refine evolves_putTable (table_eq_ok_iff.mp ht) ?_
    rw [Table.extent_set h]
    exact Extent.becomes_refl _

theorem Changes.evolves {G : FuncRef → Prop} (h : o.Changes G o') : o.Evolves o' := by
  induction h with
  | refl => exact evolves_refl o
  | tail _ hchange ih => exact ih.trans hchange.evolves

end Objects

end Wasm
