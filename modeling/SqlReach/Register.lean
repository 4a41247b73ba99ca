/-!
# Registers

A register is a list of keys with their values, in the order in which the keys
were first stored.  Storing a value under a known key replaces the value and
keeps its place.
-/

namespace SqlReach.Register

variable {κ α : Type} [DecidableEq κ]

def put (key : κ) (value : α) : List (κ × α) → List (κ × α)
  | [] => [(key, value)]
  | (known, old) :: rest =>
      if known = key then (known, value) :: rest else (known, old) :: put key value rest

/-- Stores a value, or forgets the key. -/
def set (key : κ) (value : Option α) (entries : List (κ × α)) : List (κ × α) :=
  match value with
  | some value => put key value entries
  | none => entries.filter (·.1 ≠ key)

theorem lookup_put (key other : κ) (value : α) (entries : List (κ × α)) :
    (put key value entries).lookup other =
      if other = key then some value else entries.lookup other := by
  induction entries with
  | nil =>
      rw [put, List.lookup_cons, List.lookup_nil]
      by_cases hother : other = key
      · simp [hother]
      · simp [hother, beq_false_of_ne hother]
  | cons entry rest ih =>
      obtain ⟨known, old⟩ := entry
      rw [put]
      split
      · rename_i hknown
        subst hknown
        simp only [List.lookup_cons]
        grind
      · rename_i hknown
        simp only [List.lookup_cons, ih]
        grind

theorem lookup_filter_ne (key other : κ) (entries : List (κ × α)) :
    (entries.filter (·.1 ≠ key)).lookup other =
      if other = key then none else entries.lookup other := by
  induction entries with
  | nil => simp
  | cons entry rest ih =>
      obtain ⟨known, old⟩ := entry
      by_cases hknown : known = key
      · rw [List.filter_cons_of_neg (by simpa using hknown), ih, List.lookup_cons]
        grind
      · rw [List.filter_cons_of_pos (by simpa using hknown), List.lookup_cons, List.lookup_cons, ih]
        grind

theorem lookup_set (key other : κ) (value : Option α) (entries : List (κ × α)) :
    (set key value entries).lookup other =
      if other = key then value else entries.lookup other := by
  cases value with
  | none => exact lookup_filter_ne key other entries
  | some value => exact lookup_put key other value entries

end SqlReach.Register
