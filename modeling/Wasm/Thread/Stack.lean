/-!
Stacks that know their height.  `items` lists what is on a stack from the top down; `height` is the
length of that list, so that it need not be counted again.  Positions count from the bottom, since a
position then keeps its meaning while the stack above it changes.
-/

namespace Wasm

/-- A stack. -/
structure Stack (α : Type) where
  /-- What is on the stack, the top first. -/
  items : List α
  height : Nat
  height_eq : height = items.length

namespace Stack

variable {α : Type}

/-- The stack with the given items, the top first. -/
def ofList (items : List α) : Stack α :=
  ⟨items, items.length, rfl⟩

/-- The stack with nothing on it. -/
def empty : Stack α :=
  ⟨[], 0, rfl⟩

theorem eq_of_items_eq {s t : Stack α} (h : s.items = t.items) : s = t := by
  rcases s with ⟨si, sh, hs⟩
  rcases t with ⟨ti, th, ht⟩
  subst hs ht
  simp only at h
  subst h
  rfl

/-- What is on the stack, the bottom first. -/
def toList (s : Stack α) : List α :=
  s.items.reverse

def push (s : Stack α) (a : α) : Stack α :=
  ⟨a :: s.items, s.height + 1, by simp [s.height_eq]⟩

/-- Puts `n` copies on top. -/
def pushMany (s : Stack α) (n : Nat) (a : α) : Stack α :=
  ⟨List.replicate n a ++ s.items, s.height + n, by simp [s.height_eq, Nat.add_comm]⟩

/-- The top and what is below it. -/
def pop? (s : Stack α) : Option (α × Stack α) :=
  match s with
  | ⟨[], _, _⟩ => none
  | ⟨a :: rest, height, h⟩ => some (a, ⟨rest, height - 1, by simp [h]⟩)

/-- Takes off the top `n` items, or all there are. -/
def drop (s : Stack α) (n : Nat) : Stack α :=
  ⟨s.items.drop n, s.height - n, by simp [s.height_eq]⟩

/-- Takes off everything above a height. -/
def truncate (s : Stack α) (height : Nat) : Stack α :=
  s.drop (s.height - height)

/-- The item at a position. -/
def get? (s : Stack α) (position : Nat) : Option α :=
  if position < s.height then s.items[s.height - 1 - position]? else none

/-- Replaces the item at a position; a position above the top is left alone. -/
def set (s : Stack α) (position : Nat) (a : α) : Stack α :=
  if position < s.height then
    ⟨s.items.set (s.height - 1 - position) a, s.height, by simp [s.height_eq]⟩
  else s

/-- Replaces the top. -/
def setTop (s : Stack α) (a : α) : Stack α :=
  match s with
  | ⟨[], height, h⟩ => ⟨[], height, h⟩
  | ⟨_ :: rest, height, h⟩ => ⟨a :: rest, height, by simpa using h⟩

/-- Keeps the top `keep` items and, below them, only what is under height `base`. -/
def unwind (s : Stack α) (base keep : Nat) : Stack α :=
  ⟨s.items.take keep ++ s.items.drop (s.height - base),
    min keep s.height + (s.height - (s.height - base)), by simp [s.height_eq]⟩

/-! ### The items after each operation -/

@[simp] theorem items_empty : (empty : Stack α).items = [] := rfl

@[simp] theorem items_push (s : Stack α) (a : α) : (s.push a).items = a :: s.items := rfl

@[simp] theorem items_pushMany (s : Stack α) (n : Nat) (a : α) :
    (s.pushMany n a).items = List.replicate n a ++ s.items := rfl

@[simp] theorem items_drop (s : Stack α) (n : Nat) : (s.drop n).items = s.items.drop n := rfl

@[simp] theorem items_truncate (s : Stack α) (height : Nat) :
    (s.truncate height).items = s.items.drop (s.height - height) := rfl

@[simp] theorem items_unwind (s : Stack α) (base keep : Nat) :
    (s.unwind base keep).items = s.items.take keep ++ s.items.drop (s.height - base) := rfl

theorem pop?_eq_none_iff {s : Stack α} : s.pop? = none ↔ s.items = [] := by
  rcases s with ⟨_ | ⟨a, rest⟩, height, h⟩ <;> simp [pop?]

theorem pop?_eq_some_iff {s t : Stack α} {a : α} :
    s.pop? = some (a, t) ↔ s.items = a :: t.items := by
  rcases s with ⟨_ | ⟨b, rest⟩, height, h⟩
  · simp [pop?]
  · rcases t with ⟨items, theight, th⟩
    simp only [pop?, Option.some.injEq, Prod.mk.injEq, List.cons.injEq]
    constructor
    · rintro ⟨rfl, h⟩
      exact ⟨rfl, congrArg Stack.items h⟩
    · rintro ⟨rfl, rfl⟩
      exact ⟨rfl, eq_of_items_eq rfl⟩

end Stack

end Wasm
