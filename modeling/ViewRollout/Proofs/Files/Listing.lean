import ViewRollout.Proofs.Files.Writing

/-!
# Listing after writing

What a directory lists after a file was written into it: the same as before
when the file was there already, and one name more when it was not.
-/

namespace ViewRollout

-- ---------------------------------------------------------------------------
-- Putting into a table
-- ---------------------------------------------------------------------------

namespace Table

variable {κ α β : Type} [DecidableEq κ] {table : Table κ α} {key : κ} {old new : α}

theorem put_of_get?_none (h : table.get? key = none) (new : α) :
    table.put key new = table ++ [(key, new)] := by
  induction table with
  | nil => rfl
  | cons head rest ih =>
    obtain ⟨k, a⟩ := head
    by_cases hk : k = key
    · simp [get?, hk] at h
    · simp only [get?, hk, if_false] at h
      simp only [put, hk, if_false, ih h, List.cons_append]

/-- Replacing a value is not seen through a filter that does not tell the two values apart. -/
theorem filterMap_put_of_get? {f : κ × α → Option β} (h : table.get? key = some old)
    (hf : f (key, new) = f (key, old)) :
    (table.put key new).filterMap f = table.filterMap f := by
  induction table with
  | nil => cases h
  | cons head rest ih =>
    obtain ⟨k, a⟩ := head
    by_cases hk : k = key
    · subst hk
      obtain rfl : a = old := by simpa [get?] using h
      simp only [put, if_true, List.filterMap_cons, hf]
    · simp only [get?, hk, if_false] at h
      simp only [put, hk, if_false, List.filterMap_cons, ih h]

end Table

namespace Files.Tree

variable {tree : Tree} {name : String} {content old : Bytes}

-- ---------------------------------------------------------------------------
-- The working directory
-- ---------------------------------------------------------------------------

/-- The name that an entry adds to the list of a directory, if it is in the directory. -/
def nameIn (place : Place) (item : Place × Entry) : Option (String × Bool) :=
  match item.1.getLast? with
  | some name =>
    if item.1.dropLast = place ∧ name ≠ ".." then some (name, item.2 != .directory) else none
  | none => none

/-- The names in the working directory, before they are sorted. -/
def unsorted (tree : Tree) : List (String × Bool) :=
  tree.entries.filterMap (nameIn [])

theorem list_here (tree : Tree) :
    tree.list "." = .ok (tree.unsorted.mergeSort fun a b => !decide (b.1 < a.1)) := by
  have hl : tree.locate "." = .ok [] := rfl
  rw [list, hl]
  rfl

theorem nameIn_here (hn : IsProper name) (content : Bytes) :
    nameIn [] ([name], .file content) = some (name, true) := by
  simp [nameIn, hn.2.2]

theorem unsorted_put_of_file (hn : IsProper name) (h : tree.entry? [name] = some (.file old))
    (content : Bytes) : (tree.put [name] content).unsorted = tree.unsorted := by
  unfold entry? at h
  split at h
  · cases h
  · exact Table.filterMap_put_of_get? h (by rw [nameIn_here hn, nameIn_here hn])

theorem unsorted_put_of_none (hn : IsProper name) (h : tree.entry? [name] = none)
    (content : Bytes) : (tree.put [name] content).unsorted = tree.unsorted ++ [(name, true)] := by
  unfold entry? at h
  split at h
  · cases h
  · unfold unsorted put
    rw [Table.put_of_get?_none h, List.filterMap_append]
    simp [nameIn_here hn]

theorem mem_unsorted (hn : IsProper name) (h : tree.entry? [name] = some (.file old)) :
    (name, true) ∈ tree.unsorted := by
  unfold entry? at h
  split at h
  · cases h
  · exact List.mem_filterMap.2 ⟨_, Table.mem_of_get? h, nameIn_here hn old⟩

end Files.Tree

end ViewRollout
