/-!
Association lists in the order of their names.
-/

namespace Wasm

/-- Puts an entry in front of the first one with a greater name. -/
def insertByName {α : Type} (entry : String × α) : List (String × α) → List (String × α)
  | [] => [entry]
  | e :: rest => if entry.1 < e.1 then entry :: e :: rest else e :: insertByName entry rest

theorem mem_insertByName {α : Type} (entry e : String × α) (l : List (String × α)) :
    e ∈ insertByName entry l ↔ e = entry ∨ e ∈ l := by
  induction l with
  | nil => simp [insertByName]
  | cons a rest ih =>
    by_cases h : entry.1 < a.1
    · simp [insertByName, h]
    · simp only [insertByName, h, if_false, List.mem_cons, ih]
      constructor
      · rintro (h | h | h)
        · exact .inr (.inl h)
        · exact .inl h
        · exact .inr (.inr h)
      · rintro (h | h | h)
        · exact .inr (.inl h)
        · exact .inl h
        · exact .inr (.inr h)

end Wasm
