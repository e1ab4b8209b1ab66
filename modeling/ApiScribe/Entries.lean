/-! Maps that remember the order in which their keys came: lists of pairs, where a key put again
keeps its place and takes the new value. -/
namespace ApiScribe

/-- A map as its pairs in order. -/
abbrev Entries (κ α : Type) := List (κ × α)

namespace Entries
variable {κ α β : Type} [BEq κ]

/-- The value of a key. -/
def get? (m : Entries κ α) (key : κ) : Option α := (m.find? (·.1 == key)).map (·.2)

/-- Whether the map has a key. -/
def has (m : Entries κ α) (key : κ) : Bool := m.any (·.1 == key)

/-- The keys in order. -/
def keys (m : Entries κ α) : List κ := m.map (·.1)

/-- The values in order. -/
def values (m : Entries κ α) : List α := m.map (·.2)

/-- Gives a key a value: in place if the map has the key, at the end if not. -/
def put (key : κ) (value : α) : Entries κ α → Entries κ α
  | [] => [(key, value)]
  | (k, v) :: m => if k == key then (k, value) :: m else (k, v) :: put key value m

/-- The map of a list of pairs: a repeated key keeps its first place and takes its last value. -/
def ofList (pairs : List (κ × α)) : Entries κ α :=
  pairs.foldl (fun m p => put p.1 p.2 m) []

/-- Adds a value to the group of a key, opening the group if need be. -/
def push (key : κ) (value : α) : Entries κ (List α) → Entries κ (List α)
  | [] => [(key, [value])]
  | (k, vs) :: m => if k == key then (k, vs ++ [value]) :: m else (k, vs) :: push key value m

/-- Applies a function to every value. -/
def mapValues (f : α → β) (m : Entries κ α) : Entries κ β := m.map fun p => (p.1, f p.2)

section
variable [LawfulBEq κ]

theorem keys_put (key : κ) (value : α) (m : Entries κ α) :
    (put key value m).keys = if key ∈ m.keys then m.keys else m.keys ++ [key] := by
  induction m with
  | nil => simp [put, keys]
  | cons p m ih =>
    obtain ⟨k, v⟩ := p
    by_cases h : k = key
    · simp [put, keys, h]
    · simp only [put, keys, beq_iff_eq, h, ↓reduceIte, List.map_cons] at ih ⊢
      rw [ih]
      by_cases hm : key ∈ List.map (fun p => p.1) m <;> simp [hm, Ne.symm h]

theorem get?_put (key key' : κ) (value : α) (m : Entries κ α) :
    (put key value m).get? key' = if key == key' then some value else m.get? key' := by
  induction m with
  | nil => by_cases h : key = key' <;> simp [put, get?, h]
  | cons p m ih =>
    obtain ⟨k, v⟩ := p
    by_cases h : k = key
    · subst h
      by_cases h' : k = key' <;> simp [put, get?, h']
    · simp only [put, beq_iff_eq, h, ↓reduceIte]
      by_cases h' : k = key'
      · subst h'
        simp [get?, Ne.symm h]
      · simp only [get?, List.find?_cons, beq_eq_false_iff_ne.2 h'] at ih ⊢
        exact ih

end
end Entries
end ApiScribe
