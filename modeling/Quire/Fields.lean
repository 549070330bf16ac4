/-
Module: Quire.Fields
Purpose: Named entries that keep the order in which their names first came.
Main exports: Fields, find?, has, put, ofPairs
-/

namespace Quire

/-- Entries by name, in the order in which the names were first put in. -/
abbrev Fields (α : Type) := List (String × α)

namespace Fields

variable {α : Type}

/-- The entry under a name. -/
def find? (name : String) : Fields α → Option α
  | [] => none
  | (key, value) :: rest => if key = name then some value else find? name rest

/-- Whether there is an entry under a name. -/
def has (fields : Fields α) (name : String) : Bool :=
  (fields.find? name).isSome

/-- An entry put under a name takes the place of the one that was there, and comes last if there
was none. -/
def put (name : String) (value : α) : Fields α → Fields α
  | [] => [(name, value)]
  | (key, old) :: rest =>
      if key = name then (key, value) :: rest else (key, old) :: put name value rest

/-- The entries of a list of pairs, put in one after another. -/
def ofPairs (pairs : List (String × α)) : Fields α :=
  pairs.foldl (fun fields pair => put pair.1 pair.2 fields) []

@[simp] theorem find?_put_self (name : String) (value : α) (fields : Fields α) :
    find? name (put name value fields) = some value := by
  induction fields with
  | nil => simp [put, find?]
  | cons entry rest ih =>
      obtain ⟨key, old⟩ := entry
      by_cases h : key = name
      · simp [put, find?, h]
      · simpa [put, find?, h] using ih

@[simp] theorem find?_put_of_ne {name other : String} (h : other ≠ name) (value : α)
    (fields : Fields α) : find? other (put name value fields) = find? other fields := by
  induction fields with
  | nil => simp [put, find?, Ne.symm h]
  | cons entry rest ih =>
      obtain ⟨key, old⟩ := entry
      by_cases hk : key = name
      · subst hk
        simp [put, find?, Ne.symm h]
      · by_cases ho : key = other
        · subst ho
          simp [put, find?, h]
        · simpa [put, find?, hk, ho] using ih

/-- What is found stands among the entries. -/
theorem mem_of_find? {name : String} {fields : Fields α} {value : α}
    (found : find? name fields = some value) : (name, value) ∈ fields := by
  induction fields with
  | nil => simp [find?] at found
  | cons entry rest ih =>
      obtain ⟨key, old⟩ := entry
      by_cases same : key = name
      · simp only [find?, same, if_true, Option.some.injEq] at found
        simp [same, found]
      · simp only [find?, same, if_false] at found
        exact List.mem_cons_of_mem _ (ih found)

/-- Nothing is found under a name that no entry has. -/
theorem find?_eq_none_iff {name : String} {fields : Fields α} :
    find? name fields = none ↔ ∀ value, (name, value) ∉ fields := by
  induction fields with
  | nil => simp [find?]
  | cons entry rest ih =>
      obtain ⟨key, old⟩ := entry
      by_cases same : key = name
      · subst same
        simpa [find?] using ⟨old, fun different => absurd rfl different⟩
      · simp [find?, same, Ne.symm same, ih]

/-- Where no two entries have the same name, looking up the name of an entry gives its value. -/
theorem find?_of_mem {fields : Fields α} (once : (fields.map Prod.fst).Nodup)
    {entry : String × α} (member : entry ∈ fields) : find? entry.1 fields = some entry.2 := by
  induction fields with
  | nil => exact nomatch member
  | cons first rest ih =>
      obtain ⟨fresh, others⟩ := List.nodup_cons.1 once
      rcases List.mem_cons.1 member with rfl | member
      · simp [find?]
      · have different : first.1 ≠ entry.1 := by
          intro same
          exact fresh (same ▸ List.mem_map_of_mem member)
        simpa [find?, different] using ih others member

/-- Of entries one after another the earlier ones are found first. -/
theorem find?_append (name : String) (fields others : Fields α) :
    find? name (fields ++ others) = (find? name fields).or (find? name others) := by
  induction fields with
  | nil => rfl
  | cons entry rest ih =>
      obtain ⟨key, old⟩ := entry
      by_cases same : key = name
      · simp [find?, same]
      · simpa [find?, same] using ih

/-- Of entries that are put in from the last to the first, the first of a name stays. -/
theorem find?_ofPairs_reverse (name : String) (entries : Fields α) :
    find? name (ofPairs entries.reverse) = find? name entries := by
  induction entries with
  | nil => rfl
  | cons entry rest ih =>
      obtain ⟨key, value⟩ := entry
      have last : ofPairs ((key, value) :: rest).reverse =
          put key value (ofPairs rest.reverse) := by simp [ofPairs]
      rw [last]
      by_cases same : key = name
      · subst same
        simp [find?]
      · rw [find?_put_of_ne (Ne.symm same), ih]
        simp [find?, same]

end Fields

end Quire
