import Wasm.Trap

/-!
Categories and codes.  A site that raises a failure names its category and its code apart.  The
failure belongs to a category (`Error.Belongs`) if it names that one and has a code of its range,
and the two agree (`Error.Agrees`) if it belongs to some category.  Contexts change neither.

Functions of the host may build failures as they like.  `Error.Accounted` allows for them: either
category and code agree, or the failure is one that the host may build, with contexts in front.
-/

namespace Wasm.Error

variable {e : Error} {c : Category} {code : Nat} {message : String}

/-- The failure names the category, and its code is of the category's range. -/
structure Belongs (e : Error) (c : Category) : Prop where
  category : e.category = c
  code : Category.ofCode e.code = c

/-- The category of the failure is the one that its code stands for. -/
def Agrees (e : Error) : Prop :=
  e.category = Category.ofCode e.code

instance (e : Error) : Decidable e.Agrees :=
  inferInstanceAs (Decidable (_ = _))

theorem Belongs.agrees (h : e.Belongs c) : e.Agrees :=
  h.category.trans h.code.symm

theorem agrees_ofCode (code : Nat) (message : String) : (ofCode code message).Agrees := rfl

theorem belongs_parse (h : Category.ofCode code = .parse) : (parse code message).Belongs .parse :=
  ⟨rfl, h⟩

theorem belongs_validation (h : Category.ofCode code = .validation) :
    (validation code message).Belongs .validation :=
  ⟨rfl, h⟩

theorem belongs_link (h : Category.ofCode code = .link) : (link code message).Belongs .link :=
  ⟨rfl, h⟩

theorem belongs_runtime (h : Category.ofCode code = .runtime) :
    (runtime code message).Belongs .runtime :=
  ⟨rfl, h⟩

theorem belongs_trap (t : Trap) : t.error.Belongs .trap :=
  ⟨rfl, t.ofCode_code⟩

theorem Belongs.context (h : e.Belongs c) (outer : String) : (e.context outer).Belongs c :=
  ⟨h.category, h.code⟩

theorem Agrees.context (h : e.Agrees) (outer : String) : (e.context outer).Agrees := h

/-! ### Contexts -/

/-- The failure with contexts in front, the first one the outermost. -/
def contexts (outers : List String) (e : Error) : Error :=
  outers.foldr context e

@[simp] theorem code_contexts (outers : List String) (e : Error) :
    (e.contexts outers).code = e.code := by
  induction outers with
  | nil => rfl
  | cons _ _ ih => exact ih

@[simp] theorem category_contexts (outers : List String) (e : Error) :
    (e.contexts outers).category = e.category := by
  induction outers with
  | nil => rfl
  | cons _ _ ih => exact ih

/-- Category and code agree, or functions of the host may build the failure, up to contexts. -/
def Accounted (own : Error → Prop) (e : Error) : Prop :=
  e.Agrees ∨ ∃ e₀ outers, own e₀ ∧ e = e₀.contexts outers

theorem Belongs.accounted {own : Error → Prop} (h : e.Belongs c) : e.Accounted own :=
  .inl h.agrees

theorem Accounted.context {own : Error → Prop} (h : e.Accounted own) (outer : String) :
    (e.context outer).Accounted own := by
  rcases h with h | ⟨e₀, outers, hown, rfl⟩
  · exact .inl (h.context outer)
  · exact .inr ⟨e₀, outer :: outers, hown, rfl⟩

end Wasm.Error
