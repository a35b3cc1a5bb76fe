import ViewRollout.Table

/-!
# What a table holds

`get?_putAll`: of the values that were put in under a key the last one is
there. Keys that are put in one after the other are all different, and a table
of different keys is what it holds under them.
-/

namespace ViewRollout.Table

variable {κ α : Type} [DecidableEq κ] {table : Table κ α} {key : κ} {value : α}

theorem contains_iff : table.contains key = true ↔ key ∈ table.keys := by
  induction table with
  | nil => simp [contains, get?, keys]
  | cons head rest ih =>
    obtain ⟨k, a⟩ := head
    by_cases hk : k = key
    · simp [contains, get?, keys, hk]
    · simpa [contains, get?, keys, hk, Ne.symm hk] using ih

theorem get?_eq_none_iff : table.get? key = none ↔ key ∉ table.keys := by
  rw [← contains_iff, contains, Bool.not_eq_true, Option.isSome_eq_false_iff,
    Option.isNone_iff_eq_none]

theorem mem_keys_put {other : κ} : other ∈ (table.put key value).keys ↔
    other = key ∨ other ∈ table.keys := by
  rw [← contains_iff, ← contains_iff, contains, contains, get?_put]
  by_cases h : other = key <;> simp [h]

theorem put_of_not_mem (h : key ∉ table.keys) : table.put key value = table ++ [(key, value)] := by
  induction table with
  | nil => rfl
  | cons head rest ih =>
    obtain ⟨k, a⟩ := head
    obtain ⟨hk, hrest⟩ := not_or.1 (mt List.mem_cons.2 h)
    rw [put, if_neg (Ne.symm hk), ih hrest, List.cons_append]

theorem nodup_keys_put (h : table.keys.Nodup) : (table.put key value).keys.Nodup := by
  induction table with
  | nil => simp [put, keys]
  | cons head rest ih =>
    obtain ⟨k, a⟩ := head
    obtain ⟨hnot, hrest⟩ := List.nodup_cons.1 (show (k :: keys rest).Nodup from h)
    rw [put]
    split
    · rename_i hk
      subst hk
      exact List.nodup_cons.2 ⟨hnot, hrest⟩
    · rename_i hk
      refine List.nodup_cons.2 ⟨fun hm => ?_, ih hrest⟩
      rcases mem_keys_put.1 hm with he | hm
      · exact hk he
      · exact hnot hm

theorem get?_of_mem (h : table.keys.Nodup) (hm : (key, value) ∈ table) :
    table.get? key = some value := by
  induction table with
  | nil => cases hm
  | cons head rest ih =>
    obtain ⟨k, a⟩ := head
    obtain ⟨hnot, hrest⟩ := List.nodup_cons.1 (show (k :: keys rest).Nodup from h)
    rcases List.mem_cons.1 hm with he | hm
    · cases he
      simp [get?]
    · have hk : k ≠ key := fun hk => hnot (hk ▸ List.mem_map_of_mem (f := Prod.fst) hm)
      rw [get?, if_neg hk, ih hrest hm]

theorem mem_iff_get? (h : table.keys.Nodup) :
    (key, value) ∈ table ↔ table.get? key = some value :=
  ⟨get?_of_mem h, mem_of_get?⟩

theorem nodup_keys_putAll (h : table.keys.Nodup) (pairs : List (κ × α)) :
    (table.putAll pairs).keys.Nodup := by
  induction pairs generalizing table with
  | nil => exact h
  | cons pair pairs ih => exact ih (nodup_keys_put h)

/-- Of the values that are put in under a key the last one stays. -/
theorem get?_putAll (table : Table κ α) (pairs : List (κ × α)) (key : κ) :
    (table.putAll pairs).get? key = (pairs.reverse.lookup key).or (table.get? key) := by
  induction pairs generalizing table with
  | nil => rfl
  | cons pair pairs ih =>
    obtain ⟨k, a⟩ := pair
    have hstep : table.putAll ((k, a) :: pairs) = (table.put k a).putAll pairs := rfl
    rw [hstep, ih, get?_put, List.reverse_cons, List.lookup_append, Option.or_assoc]
    by_cases hk : key = k
    · simp [hk]
    · simp [hk, List.lookup_cons, beq_false_of_ne hk]

theorem mem_of_lookup {pairs : List (κ × α)} (h : pairs.lookup key = some value) :
    (key, value) ∈ pairs := by
  obtain ⟨front, back, rfl, -⟩ := List.lookup_eq_some_iff.1 h
  exact List.mem_append_right front (List.mem_cons_self ..)

theorem lookup_reverse (h : table.keys.Nodup) : table.reverse.lookup key = table.get? key := by
  induction table with
  | nil => rfl
  | cons head rest ih =>
    obtain ⟨k, a⟩ := head
    obtain ⟨hnot, hrest⟩ := List.nodup_cons.1 (show (k :: keys rest).Nodup from h)
    rw [List.reverse_cons, List.lookup_append, ih hrest, get?]
    by_cases hk : k = key
    · subst hk
      simp [get?_eq_none_iff.2 hnot]
    · simp [hk, List.lookup_cons, beq_false_of_ne (Ne.symm hk)]

theorem get?_putAll_of_nodup {pairs : List (κ × α)} (h : (keys pairs).Nodup) (table : Table κ α)
    (key : κ) : (table.putAll pairs).get? key = (get? key pairs).or (table.get? key) := by
  rw [get?_putAll, lookup_reverse h]

end ViewRollout.Table
