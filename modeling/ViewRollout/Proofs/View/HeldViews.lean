import ViewRollout.Proofs.View.DefinitionOrder

/-!
# What a set of dependencies holds

`insertion_ordered`: a set of dependencies is a map that keeps the order of
its keys. A name stands where it was first added, and holds what the last
view of that name came to when it was expanded by the set of that time. To
add a view changes the entry of its name or sets a new one behind the others;
what is expanded has the name of the view it is made of, so the two agree on
which entry that is.
-/

namespace ViewRollout.View.Dependencies

variable {views earlier later : List View} {view given : View} {held : Dependencies}
variable {name : String}

-- ---------------------------------------------------------------------------
-- Putting a view
-- ---------------------------------------------------------------------------

theorem get?_put (view : View) (views : List View) (name : String) :
    get? ⟨put view views⟩ name = if name = view.name then some view else get? ⟨views⟩ name := by
  simp only [get?, eq_comm (a := name)]
  induction views with
  | nil => by_cases h : view.name = name <;> simp [put, h]
  | cons head rest ih =>
    rw [put]
    by_cases hhead : head.name = view.name
    · rw [if_pos hhead, List.find?_cons, List.find?_cons, hhead]
      by_cases h : view.name = name
      · simp [h]
      · simp [h, beq_eq_false_iff_ne.2 h]
    · rw [if_neg hhead, List.find?_cons, List.find?_cons]
      by_cases h : head.name = name
      · subst h
        simp [Ne.symm hhead]
      · simp [beq_eq_false_iff_ne.2 h, ih]

/-- A view takes the place of the first one of its name, or the place behind all. -/
theorem put_cases (view : View) (views : List View) :
    (view.name ∉ views.map (·.name) ∧ put view views = views ++ [view]) ∨
      ∃ front old back, views = front ++ old :: back ∧ old.name = view.name ∧
        put view views = front ++ view :: back := by
  induction views with
  | nil => exact .inl ⟨List.not_mem_nil, rfl⟩
  | cons head rest ih =>
    rw [put]
    by_cases hhead : head.name = view.name
    · exact .inr ⟨[], head, rest, rfl, hhead, if_pos hhead⟩
    · rw [if_neg hhead]
      rcases ih with ⟨hnew, hput⟩ | ⟨front, old, back, rfl, hold, hput⟩
      · refine .inl ⟨?_, by rw [hput, List.cons_append]⟩
        rw [List.map_cons, List.mem_cons, not_or]
        exact ⟨Ne.symm hhead, hnew⟩
      · exact .inr ⟨head :: front, old, back, rfl, hold, by rw [hput, List.cons_append]⟩

theorem get?_eq_none_iff : held.get? name = none ↔ name ∉ held.views.map (·.name) := by
  simp [get?]

-- ---------------------------------------------------------------------------
-- Adding a view
-- ---------------------------------------------------------------------------

/-- A view can always be added: it is put among the held ones as it is expanded by them. -/
theorem exists_insert (held : Dependencies) (given : View) :
    ∃ view, held.expand given = .ok view ∧ view.name = given.name ∧
      held.insert given = .ok ⟨put view held.views⟩ := by
  obtain ⟨view, he, hname, -⟩ := exists_expand held given
  exact ⟨view, he, hname, by rw [insert, he]; rfl⟩

/-- The last view of a name is the one that is found under it. -/
theorem Keeps.get?_eq (hk : Keeps views view given earlier) (h : insertAll views = .ok held) :
    held.get? given.name = some view := by
  cases hk with
  | @mk _ later _ _ before hb he hlater =>
    -- The views behind the last one of the name are added one by one.
    induction later using List.reverseRecOn generalizing held with
    | nil =>
      obtain rfl := Except.ok.inj (h.symm.trans (insertAll_concat hb he))
      rw [get?_put, if_pos (name_of_expand he).symm]
    | append_singleton later last ih =>
      obtain ⟨mid, hm⟩ := exists_insertAll (earlier ++ given :: later)
      obtain ⟨expanded, hl, hname, -⟩ := exists_insert mid last
      rw [← List.cons_append, ← List.append_assoc] at h
      obtain rfl := Except.ok.inj (h.symm.trans (insertAll_concat hm hl))
      have hne : last.name ≠ given.name := hlater last (by simp)
      rw [get?_put, hname, if_neg hne.symm]
      exact ih (fun other ho => hlater other (List.mem_append_left _ ho)) hm

theorem get?_of_last (h : insertAll (earlier ++ given :: later) = .ok held)
    (hlater : ∀ other ∈ later, other.name ≠ given.name) :
    ∃ before view, insertAll earlier = .ok before ∧ before.expand given = .ok view ∧
      held.get? given.name = some view := by
  obtain ⟨before, hb⟩ := exists_insertAll earlier
  obtain ⟨view, he, -⟩ := exists_expand before given
  exact ⟨before, view, hb, he, (Keeps.mk hb he hlater).get?_eq h⟩

theorem get?_of_not_mem (h : insertAll views = .ok held) (hn : name ∉ views.map (·.name)) :
    held.get? name = none := by
  rw [get?_eq_none_iff, names_of_insertAll h, List.mem_eraseDups]
  exact hn

theorem size_of_insertAll (h : insertAll views = .ok held) :
    held.size = (views.map (·.name)).eraseDups.length := by
  rw [← names_of_insertAll h, List.length_map, size]

-- ---------------------------------------------------------------------------
-- A map in the order of its insertions
-- ---------------------------------------------------------------------------

/-- Whatever views were added, the names held are distinct and stand in the order in which each was
first added; a name holds what the last view of that name was expanded to by the set it was added
to, and a name of no added view holds nothing. One view more is set behind the others, or in the
place of the one of its name, and all the others stay what they are and where they are. -/
theorem insertion_ordered (views : List View) :
    ∃ held, insertAll views = .ok held ∧
      (held.views.map (·.name)).Nodup ∧
      held.views.map (·.name) = (views.map (·.name)).eraseDups ∧
      held.size = (views.map (·.name)).eraseDups.length ∧
      (∀ name, name ∉ views.map (·.name) → held.get? name = none) ∧
      (∀ earlier given later, views = earlier ++ given :: later →
        (∀ other ∈ later, other.name ≠ given.name) →
        ∃ before view, insertAll earlier = .ok before ∧ before.expand given = .ok view ∧
          held.get? given.name = some view) ∧
      ∀ given, ∃ view after, held.expand given = .ok view ∧ view.name = given.name ∧
        held.insert given = .ok after ∧ insertAll (views ++ [given]) = .ok after ∧
        (∀ name, after.get? name = if name = given.name then some view else held.get? name) ∧
        ((given.name ∉ held.views.map (·.name) ∧ after.views = held.views ++ [view]) ∨
          ∃ front old back, held.views = front ++ old :: back ∧ old.name = given.name ∧
            after.views = front ++ view :: back) := by
  obtain ⟨held, h⟩ := exists_insertAll views
  refine ⟨held, h, nodup_names h, names_of_insertAll h, size_of_insertAll h,
    fun name hn => get?_of_not_mem h hn, ?last, fun given => ?add⟩
  case last =>
    rintro earlier given later rfl hlater
    exact get?_of_last h hlater
  case add =>
    obtain ⟨view, he, hname, hi⟩ := exists_insert held given
    refine ⟨view, _, he, hname, hi, insertAll_concat h he, fun name => ?_, ?_⟩
    · rw [get?_put, hname]
    · rw [← hname]
      exact put_cases view held.views

end ViewRollout.View.Dependencies
