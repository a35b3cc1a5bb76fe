/-!
# Tables

A table holds one value for each of its keys, in the order in which the keys were first put in.
Putting a value under a key that is there already replaces the value where it stands.
-/

namespace ViewRollout

abbrev Table (κ α : Type) := List (κ × α)

namespace Table

variable {κ α : Type} [DecidableEq κ]

def get? (key : κ) : Table κ α → Option α
  | [] => none
  | (k, a) :: rest => if k = key then some a else get? key rest

def put (key : κ) (value : α) : Table κ α → Table κ α
  | [] => [(key, value)]
  | (k, a) :: rest => if k = key then (key, value) :: rest else (k, a) :: put key value rest

def keys (table : Table κ α) : List κ :=
  table.map (·.1)

def contains (key : κ) (table : Table κ α) : Bool :=
  (table.get? key).isSome

/-- The pairs put in one after the other: of two under one key the later stays. -/
def putAll (table : Table κ α) (pairs : List (κ × α)) : Table κ α :=
  pairs.foldl (fun table (key, value) => table.put key value) table

theorem mem_of_get? {table : Table κ α} {key : κ} {value : α}
    (h : table.get? key = some value) : (key, value) ∈ table := by
  induction table with
  | nil => cases h
  | cons head rest ih =>
    obtain ⟨k, a⟩ := head
    rw [get?] at h
    split at h
    · rename_i hk
      cases h
      simp [hk]
    · exact List.mem_cons_of_mem _ (ih h)

theorem get?_put (table : Table κ α) (key other : κ) (value : α) :
    (table.put key value).get? other = if other = key then some value else table.get? other := by
  induction table with
  | nil => simp [put, get?, eq_comm]
  | cons head rest ih =>
    obtain ⟨k, a⟩ := head
    by_cases hk : k = key
    · subst hk
      simp only [put, get?, if_true]
      by_cases ho : k = other
      · simp [ho]
      · simp [ho, Ne.symm ho]
    · simp only [put, get?, hk, if_false, ih]
      by_cases ho : k = other
      · subst ho
        simp [hk]
      · simp [ho]

end Table

end ViewRollout
