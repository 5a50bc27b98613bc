namespace Lox

abbrev Bindings (α : Type) := List (String × α)

namespace Bindings

variable {α : Type}

def find? (name : String) : Bindings α → Option α
  | [] => none
  | (key, value) :: rest => if key = name then some value else find? name rest

def contains (name : String) (bindings : Bindings α) : Bool := (bindings.find? name).isSome

def insert (name : String) (value : α) : Bindings α → Bindings α
  | [] => [(name, value)]
  | (key, old) :: rest =>
    if key = name then (key, value) :: rest else (key, old) :: insert name value rest

theorem find?_insert (name other : String) (value : α) (bindings : Bindings α) :
    (bindings.insert name value).find? other = if name = other then some value else bindings.find? other := by
  induction bindings with
  | nil => simp [insert, find?]
  | cons entry rest ih =>
    obtain ⟨key, old⟩ := entry
    by_cases same : key = name
    · subst same
      by_cases here : key = other <;> simp [insert, find?, here]
    · simp only [insert, same, ↓reduceIte, find?, ih]
      by_cases here : key = other
      · subst here
        simp [Ne.symm same]
      · simp [here]

end Bindings
end Lox
