import ViewRollout.Sequence.Basic

/-!
# Parts of a sequence

Which entries a range, a limit and categories leave of a sequence, told by the
places of the entries in the whole of it. `slice_ok` says what a range is,
`mem_patchesFrom_take` which patches are the first ones of a range.
-/

namespace ViewRollout.Sequence

variable {s range : Sequence} {entries : List Entry} {needle filename : String}
variable {place start stop : Nat} {first last : Option String} {categories : List String}

-- ---------------------------------------------------------------------------
-- Markers
-- ---------------------------------------------------------------------------

theorem occursIn_iff {needle text : List Char} :
    occursIn needle text = true ↔ needle <:+: text := by
  induction text with
  | nil => rw [occursIn, List.infix_nil, List.isEmpty_iff]
  | cons c rest ih =>
    rw [occursIn, Bool.or_eq_true, List.isPrefixOf_iff_prefix, ih, List.infix_cons_iff]

def Entry.Mentions (entry : Entry) (needle : String) : Prop :=
  ∃ text, (entry.comment = some text ∨ entry.filename = some text) ∧
    needle.toList <:+: text.toList

theorem Entry.contains_iff {entry : Entry} :
    entry.contains needle = true ↔ entry.Mentions needle := by
  simp [Entry.contains, Entry.Mentions, occursIn_iff, or_and_right, exists_or]

/-- The place is that of the first entry from `start` on that mentions the needle. -/
structure FirstWith (s : Sequence) (needle : String) (start place : Nat) : Prop where
  le : start ≤ place
  mentions : ∃ entry, s.entries[place]? = some entry ∧ entry.Mentions needle
  first : ∀ i entry, start ≤ i → i < place → s.entries[i]? = some entry → ¬entry.Mentions needle

theorem find?_eq_some_iff : s.find? needle start = some place ↔ s.FirstWith needle start place := by
  simp only [find?, Option.map_eq_some_iff, List.findIdx?_eq_some_iff_getElem, Entry.contains_iff,
    List.getElem_drop, List.length_drop]
  constructor
  · rintro ⟨i, ⟨hi, hp, hfirst⟩, rfl⟩
    refine ⟨Nat.le_add_right .., ⟨_, List.getElem?_eq_getElem (by omega), hp⟩, ?_⟩
    intro j entry hj hlt hentry
    obtain ⟨k, rfl⟩ := Nat.exists_eq_add_of_le hj
    obtain ⟨hk, rfl⟩ := List.getElem?_eq_some_iff.1 hentry
    exact hfirst k (by omega)
  · rintro ⟨hle, ⟨entry, hentry, hp⟩, hfirst⟩
    obtain ⟨i, rfl⟩ := Nat.exists_eq_add_of_le hle
    obtain ⟨hi, rfl⟩ := List.getElem?_eq_some_iff.1 hentry
    refine ⟨i, ⟨by omega, hp, fun j hj => ?_⟩, rfl⟩
    exact hfirst (start + j) _ (by omega) (by omega) (List.getElem?_eq_getElem (by omega))

/-- The range that the two markers cut out of a sequence: from the first entry that mentions the
one up to the first entry from there on that mentions the other. -/
structure Cuts (s : Sequence) (first last : Option String) (start stop : Nat) : Prop where
  begins : first.elim (start = 0) (s.FirstWith · 0 start)
  ends : last.elim (stop = s.size) (s.FirstWith · start stop)

theorem startOf_ok : s.startOf first = .ok start ↔
    first.elim (start = 0) (s.FirstWith · 0 start) := by
  cases first with
  | none => simp [startOf, eq_comm]
  | some needle =>
    rw [startOf, Option.elim_some, ← find?_eq_some_iff]
    cases s.find? needle 0 <;> simp

theorem stopOf_ok : s.stopOf start last = .ok stop ↔
    last.elim (stop = s.size) (s.FirstWith · start stop) := by
  cases last with
  | none => simp [stopOf, eq_comm]
  | some needle =>
    rw [stopOf, Option.elim_some, ← find?_eq_some_iff]
    cases s.find? needle start <;> simp

theorem slice_ok : s.slice first last = .ok range ↔
    ∃ start stop, s.Cuts first last start stop ∧
      range = ⟨(s.entries.take stop).drop start⟩ := by
  constructor
  · intro h
    rw [slice] at h
    cases hstart : s.startOf first with
    | error => simp [hstart] at h
    | ok start =>
      cases hstop : s.stopOf start last with
      | error => simp [hstart, hstop] at h
      | ok stop =>
        simp only [hstart, hstop, Except.ok.injEq] at h
        exact ⟨start, stop, ⟨startOf_ok.1 hstart, stopOf_ok.1 hstop⟩, h.symm⟩
  · rintro ⟨start, stop, ⟨hstart, hstop⟩, rfl⟩
    rw [slice, startOf_ok.2 hstart]
    dsimp only
    rw [stopOf_ok.2 hstop]

-- ---------------------------------------------------------------------------
-- Patches and their places
-- ---------------------------------------------------------------------------

/-- The patches of the entries, each with its place, when the first entry stands at `start`. -/
def patchesFrom (start : Nat) : List Entry → List (Nat × String)
  | [] => []
  | entry :: rest => (entry.filename.map (start, ·)).toList ++ patchesFrom (start + 1) rest

def countPatches (entries : List Entry) : Nat :=
  entries.countP (·.filename.isSome)

theorem map_snd_patchesFrom (start : Nat) (entries : List Entry) :
    (patchesFrom start entries).map (·.2) = entries.filterMap (·.filename) := by
  induction entries generalizing start with
  | nil => rfl
  | cons entry entries ih =>
    rw [patchesFrom, List.map_append, ih, List.filterMap_cons]
    cases entry.filename <;> rfl

/-- The first patches of the entries are those with fewer patches before them. -/
theorem mem_patchesFrom_take {n : Nat} : (place, filename) ∈ (patchesFrom start entries).take n ↔
    ∃ front entry back, entries = front ++ entry :: back ∧ place = start + front.length ∧
      entry.filename = some filename ∧ countPatches front < n := by
  induction entries generalizing start n with
  | nil => simp [patchesFrom]
  | cons entry entries ih =>
    rw [patchesFrom]
    cases hf : entry.filename with
    | none =>
      rw [Option.map_none, Option.toList_none, List.nil_append, ih]
      constructor
      · rintro ⟨front, e, back, rfl, rfl, he, hn⟩
        refine ⟨entry :: front, e, back, rfl, by rw [List.length_cons]; omega, he, ?_⟩
        simpa [countPatches, hf] using hn
      · rintro ⟨front, e, back, hs, rfl, he, hn⟩
        rcases List.cons_eq_append_iff.1 hs with ⟨-, h⟩ | ⟨front, rfl, hrest⟩
        · rw [(List.cons.inj h).1, hf] at he
          cases he
        · refine ⟨front, e, back, hrest, by rw [List.length_cons]; omega, he, ?_⟩
          simpa [countPatches, hf] using hn
    | some name =>
      cases n with
      | zero => simp
      | succ n =>
        rw [Option.map_some, Option.toList_some, List.singleton_append, List.take_succ_cons,
          List.mem_cons, ih]
        constructor
        · rintro (h | ⟨front, e, back, rfl, rfl, he, hn⟩)
          · cases h
            exact ⟨[], entry, entries, rfl, rfl, hf, Nat.succ_pos n⟩
          · refine ⟨entry :: front, e, back, rfl, by rw [List.length_cons]; omega, he, ?_⟩
            simpa [countPatches, hf] using hn
        · rintro ⟨front, e, back, hs, rfl, he, hn⟩
          rcases List.cons_eq_append_iff.1 hs with ⟨rfl, h⟩ | ⟨front, rfl, hrest⟩
          · obtain ⟨rfl, -⟩ := List.cons.inj h
            exact .inl (by rw [Option.some.inj (hf.symm.trans he)]; rfl)
          · refine .inr ⟨front, e, back, hrest, by rw [List.length_cons]; omega, he, ?_⟩
            simpa [countPatches, hf] using hn

theorem le_of_mem_patchesFrom (h : (place, filename) ∈ patchesFrom start entries) :
    start ≤ place := by
  rw [← List.take_length (l := patchesFrom start entries), mem_patchesFrom_take] at h
  obtain ⟨front, _, _, -, rfl, -⟩ := h
  exact Nat.le_add_right ..

theorem pairwise_patchesFrom (start : Nat) (entries : List Entry) :
    (patchesFrom start entries).Pairwise (·.1 < ·.1) := by
  induction entries generalizing start with
  | nil => exact .nil
  | cons entry entries ih =>
    rw [patchesFrom]
    refine List.pairwise_append.2 ⟨?_, ih (start + 1), ?_⟩
    · cases entry.filename <;> simp
    · rintro ⟨place, name⟩ hm ⟨later, other⟩ hlater
      obtain ⟨_, -, rfl, -⟩ : ∃ f, entry.filename = some f ∧ start = place ∧ f = name := by
        simpa using hm
      exact le_of_mem_patchesFrom hlater

theorem takePatches_isPrefix (n : Nat) (entries : List Entry) :
    takePatches n entries <+: entries := by
  fun_induction takePatches n entries with
  | case1 => exact List.nil_prefix
  | case2 => exact List.nil_prefix
  | case3 n entry rest ih => exact (List.prefix_cons_inj entry).2 ih

theorem filterMap_takePatches (n : Nat) (entries : List Entry) :
    (takePatches n entries).filterMap (·.filename) =
      (entries.filterMap (·.filename)).take n := by
  fun_induction takePatches n entries with
  | case1 => rfl
  | case2 => rfl
  | case3 n entry rest ih =>
    rw [List.filterMap_cons, List.filterMap_cons]
    cases h : entry.filename <;> simp_all

theorem filenames_limit (s : Sequence) (n : Nat) : (s.limit n).filenames = s.filenames.take n := by
  rw [limit]
  split
  · rename_i h
    rw [List.take_of_length_le]
    exact Nat.le_of_lt (Nat.lt_of_le_of_lt (List.length_filterMap_le _ _) h)
  · exact filterMap_takePatches n s.entries

/-- The filename begins with one of the categories, if there are any. -/
def UnderAny (categories : List String) (filename : String) : Prop :=
  categories = [] ∨ ∃ category ∈ categories, category.toList <+: filename.toList

instance (categories : List String) (filename : String) :
    Decidable (UnderAny categories filename) :=
  inferInstanceAs (Decidable (_ ∨ _))

theorem isUnder_iff {entry : Entry} (h : entry.filename = some filename) :
    entry.isUnder categories = true ↔ UnderAny categories filename := by
  simp [Entry.isUnder, UnderAny, h]

theorem filenames_ofCategories (s : Sequence) (categories : List String) :
    (s.ofCategories categories).filenames = s.filenames.filter (UnderAny categories ·) := by
  rw [ofCategories]
  split
  · rename_i h
    rw [List.filter_eq_self.2]
    intro filename _
    exact decide_eq_true (.inl (List.isEmpty_iff.1 h))
  · rename_i h
    rw [filenames, filenames, List.filterMap_filter, List.filter_filterMap]
    refine congrArg (List.filterMap · s.entries) (funext fun entry => ?_)
    cases hf : entry.filename with
    | none => simp
    | some filename =>
      simp [isUnder_iff hf, Option.filter]

end ViewRollout.Sequence
