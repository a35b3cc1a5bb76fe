import ViewRollout.Sql.Keyword
import ViewRollout.Proofs.Sql.Cursor
import ViewRollout.Text.Fold

/-!
# Keywords in a text

`keywordPlace?_eq_some_iff`: the search gives the first place at which the
keyword stands as a whole identifier of the text's code. What an identifier
is made of moves no reader out of code, so a keyword that begins in code is
code as a whole.
-/

namespace ViewRollout.Sql

open Text

variable {keyword text : List Char} {before : Option Char} {marks : List Marked} {place : Nat}

-- ---------------------------------------------------------------------------
-- Identifiers in code
-- ---------------------------------------------------------------------------

theorem stays_of_isIdent (h : isIdent c = true) : leavesCode c = false :=
  stays_of_class h (by decide)

theorem step_of_isIdent {region : Region} (hr : region.Reached) (h : isIdent c = true)
    (next : Option Char) : region.step c next = (region, false) :=
  Region.step_of_not_steering hr (not_mem_of_class h (by decide)) next

-- ---------------------------------------------------------------------------
-- What the search tests
-- ---------------------------------------------------------------------------

/-- The keyword begins in code at the place of a marked text that follows the given character. -/
def FoundAt (keyword : List Char) (before : Option Char) (marks : List Marked) (place : Nat) :
    Prop :=
  marks[place]?.any (·.code) = true ∧
    (((marks.take place).map (·.char)).getLast?.or before).any isIdent = false ∧
    beginsWith keyword (marks.drop place) = true

theorem foundAt_succ (marked : Marked) :
    FoundAt keyword before (marked :: marks) (place + 1) ↔
      FoundAt keyword (some marked.char) marks place := by
  simp only [FoundAt, List.getElem?_cons_succ, List.take_succ_cons, List.drop_succ_cons,
    List.map_cons, List.getLast?_cons]
  cases ((marks.take place).map (·.char)).getLast? <;> simp

theorem foundAt_zero (marked : Marked) :
    FoundAt keyword before (marked :: marks) 0 ↔
      (marked.code && !before.any isIdent && beginsWith keyword (marked :: marks)) = true := by
  simp [FoundAt, and_assoc]

theorem keywordAfter?_eq_none_iff :
    keywordAfter? keyword before marks = none ↔ ∀ place, ¬FoundAt keyword before marks place := by
  induction marks generalizing before with
  | nil => simp [keywordAfter?, FoundAt]
  | cons marked marks ih =>
    rw [keywordAfter?]
    by_cases h0 : FoundAt keyword before (marked :: marks) 0
    · rw [if_pos ((foundAt_zero marked).1 h0)]
      simp only [reduceCtorEq, false_iff]
      exact fun hn => hn 0 h0
    · rw [if_neg fun h => h0 ((foundAt_zero marked).2 h), Option.map_eq_none_iff, ih]
      constructor
      · intro hn place
        cases place with
        | zero => exact h0
        | succ place => exact fun h => hn place ((foundAt_succ marked).1 h)
      · exact fun hn place h => hn (place + 1) ((foundAt_succ marked).2 h)

theorem keywordAfter?_eq_some_iff :
    keywordAfter? keyword before marks = some place ↔
      FoundAt keyword before marks place ∧
        ∀ earlier < place, ¬FoundAt keyword before marks earlier := by
  induction marks generalizing before place with
  | nil => simp [keywordAfter?, FoundAt]
  | cons marked marks ih =>
    rw [keywordAfter?]
    by_cases h0 : FoundAt keyword before (marked :: marks) 0
    · rw [if_pos ((foundAt_zero marked).1 h0)]
      constructor
      · rintro ⟨⟩
        exact ⟨h0, fun earlier he => absurd he (Nat.not_lt_zero _)⟩
      · rintro ⟨-, hn⟩
        cases place with
        | zero => rfl
        | succ place => exact absurd h0 (hn 0 (Nat.succ_pos _))
    · rw [if_neg fun h => h0 ((foundAt_zero marked).2 h)]
      cases place with
      | zero => simp [h0]
      | succ place =>
        simp only [Option.map_eq_some_iff, Nat.add_right_cancel_iff, exists_eq_right, ih,
          foundAt_succ]
        refine and_congr_right fun _ => ⟨?_, ?_⟩
        · intro hn earlier he
          cases earlier with
          | zero => exact h0
          | succ earlier =>
            exact fun h => hn earlier (Nat.lt_of_succ_lt_succ he) ((foundAt_succ marked).1 h)
        · exact fun hn earlier he h =>
            hn (earlier + 1) (Nat.succ_lt_succ he) ((foundAt_succ marked).2 h)

-- ---------------------------------------------------------------------------
-- Keywords as whole identifiers
-- ---------------------------------------------------------------------------

/-- The keyword stands at the place of the text: a whole identifier that spells it in any case,
every character of it code. -/
structure KeywordAt (keyword text : List Char) (place : Nat) : Prop where
  spelled : ∃ front word back, text = front ++ (word ++ back) ∧ front.length = place ∧
    word.map Char.toLower = keyword.map Char.toLower ∧
    front.getLast?.any isIdent = false ∧ back.head?.any isIdent = false
  code : ∀ i < keyword.length, (mark .code text)[place + i]?.any (·.code) = true

theorem beginsWith_iff :
    beginsWith keyword marks = true ↔ ∃ word back, marks.map (·.char) = word ++ back ∧
      word.map Char.toLower = keyword.map Char.toLower ∧ back.head?.any isIdent = false := by
  induction keyword generalizing marks with
  | nil =>
    constructor
    · intro h
      refine ⟨[], marks.map (·.char), rfl, rfl, ?_⟩
      cases marks with
      | nil => rfl
      | cons marked marks => simpa [beginsWith] using h
    · rintro ⟨word, back, hm, hw, hb⟩
      cases List.map_eq_nil_iff.1 hw
      rw [List.nil_append] at hm
      rw [← hm] at hb
      cases marks with
      | nil => rfl
      | cons marked marks => simpa [beginsWith] using hb
  | cons k ks ih =>
    cases marks with
    | nil => simp [beginsWith]
    | cons marked marks =>
      simp only [beginsWith, Bool.and_eq_true, beq_iff_eq, ih, List.map_cons]
      constructor
      · rintro ⟨hk, word, back, hm, hw, hb⟩
        exact ⟨marked.char :: word, back, by rw [hm]; rfl, by simp [hk, hw], hb⟩
      · rintro ⟨word, back, hm, hw, hb⟩
        cases word with
        | nil => simp at hw
        | cons c word =>
          rw [List.cons_append] at hm
          obtain ⟨rfl, hrest⟩ := List.cons.inj hm
          obtain ⟨hk, hw⟩ := List.cons.inj hw
          exact ⟨hk.symm, word, back, hrest, hw, hb⟩

theorem isIdent_toLower (c : Char) : isIdent c.toLower = isIdent c :=
  of_ascii_of_toLower_eq (p := fun c => isIdent c.toLower = isIdent c) (by decide)
    (congrArg isIdent)

theorem isIdent_of_map_toLower {word : List Char} (hk : keyword.all isIdent = true)
    (hw : word.map Char.toLower = keyword.map Char.toLower) : ∀ c ∈ word, isIdent c = true := by
  intro c hc
  have hm : c.toLower ∈ keyword.map Char.toLower := hw ▸ List.mem_map_of_mem hc
  obtain ⟨k, hkm, hk'⟩ := List.mem_map.1 hm
  rw [← isIdent_toLower, ← hk', isIdent_toLower, List.all_eq_true.1 hk k hkm]

theorem foundAt_iff_keywordAt (hne : keyword ≠ []) (hk : keyword.all isIdent = true) :
    FoundAt keyword none (mark .code text) place ↔ KeywordAt keyword text place := by
  constructor
  · rintro ⟨hc, hf, hb⟩
    obtain ⟨word, back, hm, hw, hback⟩ := beginsWith_iff.1 hb
    rw [List.map_drop, map_char_mark] at hm
    rw [List.map_take, map_char_mark, Option.or_none] at hf
    have hlt : place < text.length := lt_length_of_code hc
    have hfront : (text.take place).length = place := by
      rw [List.length_take]
      omega
    have ht : text = text.take place ++ (word ++ back) := by
      rw [← hm, List.take_append_drop]
    refine ⟨⟨text.take place, word, back, ht, hfront, hw, hf, hback⟩, ?_⟩
    intro i hi
    have hid := isIdent_of_map_toLower hk hw
    have hlen : word.length = keyword.length := by
      simpa using congrArg List.length hw
    have hcode : (mark .code (text.take place ++ (word ++ back)))[(text.take place).length]?.any
        (·.code) = true := by
      rw [← ht, hfront]
      exact hc
    rw [ht, mark_append_of_code hcode, mark_code, Cursor.marks_append,
      Cursor.marks_of_stays fun c hc => stays_of_isIdent (hid c hc)]
    have hl : (Cursor.code.marks (word ++ back).head? (text.take place)).length = place := by
      rw [Cursor.length_marks, hfront]
    rw [Option.or_none, List.getElem?_append_right (by omega), hl, Nat.add_sub_cancel_left,
      List.getElem?_append_left (by rw [List.length_map, hlen]; exact hi)]
    simp [hlen, hi]
  · rintro ⟨⟨front, word, back, ht, rfl, hw, hf, hb⟩, hcode⟩
    have h0 : 0 < keyword.length := List.length_pos_iff.2 hne
    refine ⟨hcode 0 h0, ?_, ?_⟩
    · rw [List.map_take, map_char_mark, ht, List.take_left, Option.or_none]
      exact hf
    · refine beginsWith_iff.2 ⟨word, back, ?_, hw, hb⟩
      rw [List.map_drop, map_char_mark, ht, List.drop_left]

theorem keywordPlace?_eq_some_iff (hne : keyword ≠ []) (hk : keyword.all isIdent = true) :
    keywordPlace? keyword text = some place ↔
      KeywordAt keyword text place ∧ ∀ earlier < place, ¬KeywordAt keyword text earlier := by
  simp only [keywordPlace?, keywordAfter?_eq_some_iff, foundAt_iff_keywordAt hne hk]

theorem keywordPlace?_eq_none_iff (hne : keyword ≠ []) (hk : keyword.all isIdent = true) :
    keywordPlace? keyword text = none ↔ ∀ place, ¬KeywordAt keyword text place := by
  simp only [keywordPlace?, keywordAfter?_eq_none_iff, foundAt_iff_keywordAt hne hk]

end ViewRollout.Sql
