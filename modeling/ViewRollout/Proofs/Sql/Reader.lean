import ViewRollout.Proofs.Sql.Piece

/-!
# What the readers of pieces take

Each reader is described by the piece it took and by what cannot stand behind
it, since every reader takes as much as there is. With the lemmas on written
pieces this says of any text what is read from it.
-/

namespace ViewRollout.Sql

open Text

variable {keyword text word rest name : List Char}

def IsTick (text : List Char) : Prop :=
  text = [] ∨ text = [backtick]

theorem trimStart_append {gap : List Char} (hg : ∀ c ∈ gap, isBlank c = true)
    (hr : rest.head?.any isBlank = false) : trimStart (gap ++ rest) = rest := by
  rw [trimStart_append_of_blank hg, trimStart_eq_self hr]

theorem keyword?_eq_some_iff :
    keyword? keyword text = some rest ↔ ∃ word, text = word ++ rest ∧ Spells keyword word := by
  constructor
  · intro h
    induction keyword generalizing text with
    | nil =>
      obtain rfl : text = rest := Option.some.inj h
      exact ⟨[], rfl, rfl⟩
    | cons k ks ih =>
      cases text with
      | nil => cases h
      | cons c text =>
        rw [keyword?, Option.ite_none_right_eq_some] at h
        obtain ⟨hc, h⟩ := h
        obtain ⟨word, rfl, hw⟩ := ih h
        refine ⟨c :: word, rfl, ?_⟩
        rw [Spells, List.map_cons, List.map_cons, hc, hw]
  · rintro ⟨word, rfl, hw⟩
    exact keyword?_append hw rest

theorem blanks?_eq_some_iff :
    blanks? text = some rest ↔
      ∃ gap, text = gap ++ rest ∧ IsGap gap ∧ rest.head?.any isBlank = false := by
  constructor
  · intro h
    cases text with
    | nil => cases h
    | cons c text =>
      rw [blanks?, Option.ite_none_right_eq_some] at h
      obtain ⟨hc, h⟩ := h
      obtain ⟨gap, hg, hall⟩ := exists_trimStart text
      obtain rfl : trimStart text = rest := Option.some.inj h
      refine ⟨c :: gap, congrArg (List.cons c) hg, ⟨List.cons_ne_nil _ _, ?_⟩, head?_trimStart _⟩
      intro d hd
      rcases List.mem_cons.1 hd with rfl | hd
      · exact hc
      · exact hall d hd
  · rintro ⟨gap, rfl, hg, hr⟩
    exact blanks?_append hg hr

theorem word?_eq_some_iff :
    word? text = some (word, rest) ↔ text = word ++ rest ∧ IsWord word ∧ endsWord rest = true := by
  constructor
  · intro h
    refine ⟨(append_of_word? h).symm, ?_⟩
    unfold word? at h
    split at h
    · cases h
    · rename_i hne
      obtain ⟨rfl, rfl⟩ := Prod.mk.inj (Option.some.inj h)
      refine ⟨⟨hne, List.all_eq_true.1 List.all_takeWhile⟩, ?_⟩
      have hs := List.head?_dropWhile_not isWordChar text
      rw [endsWord]
      cases hd : text.dropWhile isWordChar with
      | nil => rfl
      | cons c rest => simpa [hd] using hs
  · rintro ⟨rfl, hw, hr⟩
    exact word?_append hw hr

theorem as?_eq_some_iff :
    as? text = some rest ↔
      ∃ word, text = word ++ rest ∧ Spells ['A', 'S'] word ∧ endsWord rest = true := by
  rw [as?, Option.filter_eq_some_iff, keyword?_eq_some_iff]
  constructor
  · rintro ⟨⟨word, ht, hw⟩, hr⟩
    exact ⟨word, ht, hw, hr⟩
  · rintro ⟨word, ht, hw, hr⟩
    exact ⟨⟨word, ht, hw⟩, hr⟩

-- ---------------------------------------------------------------------------
-- Names
-- ---------------------------------------------------------------------------

theorem exists_dropTick (text : List Char) :
    ∃ tick, text = tick ++ dropTick text ∧ IsTick tick ∧
      (tick = [] → text.head? ≠ some backtick) := by
  cases text with
  | nil => exact ⟨[], rfl, .inl rfl, nofun⟩
  | cons c rest =>
    by_cases hc : c = backtick
    · subst hc
      exact ⟨[backtick], rfl, .inr rfl, nofun⟩
    · refine ⟨[], ?_, .inl rfl, fun _ h => hc (Option.some.inj h)⟩
      exact (if_neg hc).symm

theorem dropTick_append {tick : List Char} (ht : IsTick tick)
    (hr : rest.head? ≠ some backtick) : dropTick (tick ++ rest) = rest := by
  rcases ht with rfl | rfl
  · cases rest with
    | nil => rfl
    | cons c rest => exact if_neg fun hc => hr (congrArg some hc)
  · rfl

theorem IsWord.head?_ne_backtick (h : IsWord word) (rest : List Char) :
    (word ++ rest).head? ≠ some backtick := by
  obtain ⟨c, word, rfl, hc⟩ := h.head
  exact fun he => ne_backtick_of_isWordChar hc (Option.some.inj he)

theorem IsTick.head_not_blank {left : List Char} (hl : IsTick left) (hn : IsWord name)
    (rest : List Char) : (left ++ (name ++ rest)).head?.any isBlank = false := by
  rcases hl with rfl | rfl
  · obtain ⟨c, word, rfl, hc⟩ := hn.head
    exact isBlank_of_isWordChar hc
  · rfl

theorem name?_tick_append {left after : List Char} (hl : IsTick left) (hn : IsWord name)
    (ha : endsWord after = true) :
    name? (left ++ (name ++ after)) = some (name, dropTick after) := by
  rw [name?, dropTick_append hl (hn.head?_ne_backtick after), word?_append hn ha]
  rfl

theorem name?_eq_some_iff :
    name? text = some (name, rest) ↔ ∃ left right,
      text = left ++ (name ++ (right ++ rest)) ∧ IsTick left ∧ IsTick right ∧ IsWord name ∧
        endsWord (right ++ rest) = true ∧ (right = [] → rest.head? ≠ some backtick) := by
  constructor
  · intro h
    rw [name?, Option.map_eq_some_iff] at h
    obtain ⟨⟨word, after⟩, hw, he⟩ := h
    obtain ⟨rfl, rfl⟩ := Prod.mk.inj he
    obtain ⟨left, hleft, hl, -⟩ := exists_dropTick text
    obtain ⟨right, hright, hr, hnot⟩ := exists_dropTick after
    obtain ⟨ht, hword, hends⟩ := word?_eq_some_iff.1 hw
    refine ⟨left, right, ?_, hl, hr, hword, ?_, fun hnil => ?_⟩
    · rw [← hright, ← ht, ← hleft]
    · rwa [← hright]
    · subst hnil
      rw [List.nil_append] at hright
      rw [← hright]
      exact hnot rfl
  · rintro ⟨left, right, rfl, hl, hr, hn, hends, hnot⟩
    rw [name?_tick_append hl hn hends]
    rcases hr with rfl | rfl
    · have hd : dropTick ([] ++ rest) = rest := dropTick_append (.inl rfl) (hnot rfl)
      rw [hd]
    · rfl

theorem isSome_name? (text : List Char) :
    (name? text).isSome = (dropTick text).head?.any isWordChar := by
  rw [name?, Option.isSome_map, word?]
  cases dropTick text with
  | nil => rfl
  | cons c rest =>
    cases hc : isWordChar c <;> simp [hc]

end ViewRollout.Sql
