import ViewRollout.Sql.Name
import ViewRollout.Proofs.Text.Trimming

/-!
# Pieces as they are written

The written forms of the pieces that headers and introducers are made of, and
what their readers give for them: a reader takes the whole piece and leaves
the text behind it, as long as that text does not go on with the piece.
-/

namespace ViewRollout.Sql

open Text

def IsGap (text : List Char) : Prop :=
  text ≠ [] ∧ ∀ c ∈ text, isBlank c = true

def IsWord (text : List Char) : Prop :=
  text ≠ [] ∧ ∀ c ∈ text, isWordChar c = true

instance (text : List Char) : Decidable (IsGap text) :=
  decidable_of_iff (text ≠ [] ∧ text.all isBlank = true) (by rw [List.all_eq_true]; rfl)

instance (text : List Char) : Decidable (IsWord text) :=
  decidable_of_iff (text ≠ [] ∧ text.all isWordChar = true) (by rw [List.all_eq_true]; rfl)

def Spells (keyword text : List Char) : Prop :=
  text.map fold = keyword.map fold

/-- A name as it may be written: as it is, or with a backtick on both sides. -/
inductive Named (name : List Char) : List Char → Prop where
  | bare : Named name name
  | ticked : Named name (backtick :: (name ++ [backtick]))

-- ---------------------------------------------------------------------------
-- First characters
-- ---------------------------------------------------------------------------

theorem IsWord.head (h : IsWord word) : ∃ c rest, word = c :: rest ∧ isWordChar c = true := by
  obtain ⟨hne, hall⟩ := h
  cases word with
  | nil => exact absurd rfl hne
  | cons c rest => exact ⟨c, rest, rfl, hall c (List.mem_cons_self ..)⟩

theorem Spells.head (h : Spells (k :: ks) text) : ∃ c rest, text = c :: rest ∧ fold c = fold k := by
  cases text with
  | nil => cases h
  | cons c rest => exact ⟨c, rest, rfl, (List.cons.inj h).1⟩

theorem isWordChar_backtick : isWordChar backtick = false := by decide

theorem isWordChar_newline : isWordChar '\n' = false := by decide

theorem ne_backtick_of_isWordChar (h : isWordChar c = true) : c ≠ backtick := by
  rintro rfl
  rw [isWordChar_backtick] at h
  cases h

theorem Named.head_not_blank (hn : Named name text) (hw : IsWord name) (rest : List Char) :
    (text ++ rest).head?.any isBlank = false := by
  cases hn with
  | bare =>
    obtain ⟨c, word, rfl, hc⟩ := hw.head
    exact isBlank_of_isWordChar hc
  | ticked => rfl

theorem fold_of_isBlank (h : isBlank c = true) : fold c = c := by
  have hs : c ≠ 'ſ' := by
    rintro rfl
    exact absurd h (by decide)
  have hk : c ≠ '\u212A' := by
    rintro rfl
    exact absurd h (by decide)
  have hu : ¬(c.val ≥ 'A'.val ∧ c.val ≤ 'Z'.val) := by
    simp only [UInt32.le_iff_toNat_le, ge_iff_le]
    change ¬(65 ≤ c.toNat ∧ c.toNat ≤ 90)
    simp [isBlank, blankRanges, Ranges.contains] at h
    omega
  rw [fold, if_neg hs, if_neg hk]
  exact dif_neg hu

theorem Spells.head_not_blank (h : Spells (k :: ks) text) (hk : isBlank (fold k) = false)
    (rest : List Char) : (text ++ rest).head?.any isBlank = false := by
  obtain ⟨c, word, rfl, hc⟩ := h.head
  show isBlank c = false
  cases hb : isBlank c with
  | false => rfl
  | true => rw [← hc, fold_of_isBlank hb, hb] at hk; exact hk

-- ---------------------------------------------------------------------------
-- Readers
-- ---------------------------------------------------------------------------

theorem keyword?_append (h : Spells keyword text) (rest : List Char) :
    keyword? keyword (text ++ rest) = some rest := by
  induction keyword generalizing text with
  | nil =>
    cases List.map_eq_nil_iff.1 h
    rfl
  | cons k ks ih =>
    obtain ⟨c, word, rfl, hc⟩ := h.head
    rw [List.cons_append, keyword?, if_pos hc.symm]
    exact ih (List.cons.inj h).2

theorem keyword?_eq_none (h : fold k ≠ fold c) (ks rest : List Char) :
    keyword? (k :: ks) (c :: rest) = none :=
  if_neg h

theorem blanks?_append (h : IsGap gap) (hr : rest.head?.any isBlank = false) :
    blanks? (gap ++ rest) = some rest := by
  obtain ⟨hne, hall⟩ := h
  cases gap with
  | nil => exact absurd rfl hne
  | cons c gap =>
    rw [List.cons_append, blanks?, if_pos (hall c (List.mem_cons_self ..)),
      trimStart_append_of_blank fun d hd => hall d (List.mem_cons_of_mem _ hd),
      trimStart_eq_self hr]

theorem word?_append (h : IsWord word) (hr : endsWord rest = true) :
    word? (word ++ rest) = some (word, rest) := by
  obtain ⟨hne, hall⟩ := h
  have ht : rest.takeWhile isWordChar = [] ∧ rest.dropWhile isWordChar = rest := by
    cases rest with
    | nil => exact ⟨rfl, rfl⟩
    | cons c rest =>
      have hc : ¬isWordChar c = true := by simpa [endsWord] using hr
      exact ⟨List.takeWhile_cons_of_neg hc, List.dropWhile_cons_of_neg hc⟩
  unfold word?
  rw [List.takeWhile_append_of_pos hall, List.dropWhile_append_of_pos hall, ht.1, ht.2,
    List.append_nil]
  cases word with
  | nil => exact absurd rfl hne
  | cons c word => rfl

theorem name?_append (hn : Named name text) (hw : IsWord name) (hr : isWordChar c = false)
    (hc : c ≠ backtick) (rest : List Char) :
    name? (text ++ c :: rest) = some (name, c :: rest) := by
  have hd : dropTick (c :: rest) = c :: rest := if_neg hc
  cases hn with
  | bare =>
    have hk : dropTick (name ++ c :: rest) = name ++ c :: rest := by
      obtain ⟨d, word, rfl, hd⟩ := hw.head
      exact if_neg (ne_backtick_of_isWordChar hd)
    rw [name?, hk, word?_append hw (by simp [endsWord, hr]), Option.map_some]
    exact congrArg (fun after => some (name, after)) hd
  | ticked =>
    have hk : dropTick (backtick :: (name ++ [backtick]) ++ c :: rest) =
        name ++ backtick :: c :: rest := by
      simp [dropTick]
    rw [name?, hk, word?_append hw (by simp [endsWord, isWordChar_backtick]), Option.map_some]
    rfl

theorem as?_append (h : Spells ['A', 'S'] text) (hr : endsWord rest = true) :
    as? (text ++ rest) = some rest := by
  rw [as?, keyword?_append h, Option.filter_some, if_pos hr]

end ViewRollout.Sql
