import ViewRollout.Proofs.Sql.Keyword
import ViewRollout.Proofs.Sql.Reference

/-!
# What stands before a bracket

A `[` belongs to no pair and to no identifier, so what stands before it is
read as if the text ended there: whether the `[` is code, and which keywords
stand before it, is settled by the text before it alone.
-/

namespace ViewRollout.Sql

variable {keyword front rest text : List Char} {place : Nat}

/-- A character that belongs to no pair and opens nothing is code where the text before it ends in
code. -/
theorem code_iff_finish {c : Char} (hback : pairsBack c = false) (hstays : leavesCode c = false) :
    (mark .code (front ++ c :: rest))[front.length]?.any (·.code) = true ↔
      finish .code front = .code := by
  rw [← Cursor.after_eq_code_iff (show (some c).any pairsBack = false from hback)]
  constructor
  · intro h
    rw [mark_code] at h
    exact Cursor.after_eq_code (s := Cursor.code) h
  · intro h
    have hl : (Cursor.code.marks (some c) front).length = front.length := Cursor.length_marks ..
    rw [mark_code, Cursor.marks_append]
    simp only [List.head?_cons, Option.some_or]
    rw [List.getElem?_append_right (Nat.le_of_eq hl), hl, Nat.sub_self, h, Cursor.marks,
      Cursor.isCode_of_stays hstays]
    rfl

theorem code_bracket_iff :
    (mark .code (front ++ '[' :: rest))[front.length]?.any (·.code) = true ↔
      finish .code front = .code :=
  code_iff_finish (by decide) (by decide)

/-- Such a character is code of the text where the text can be cut in front of it. -/
theorem mem_mark_iff {c : Char} (hback : pairsBack c = false) (hstays : leavesCode c = false) :
    ⟨c, true⟩ ∈ mark .code text ↔
      ∃ front rest, text = front ++ c :: rest ∧ finish .code front = .code := by
  constructor
  · intro h
    obtain ⟨before, behind, hm⟩ := List.append_of_mem h
    have htext := map_char_mark .code text
    simp only [hm, List.map_append, List.map_cons] at htext
    have hcode : (mark .code text)[(before.map (·.char)).length]?.any (·.code) = true := by
      simp [hm]
    rw [← htext] at hcode
    exact ⟨_, _, htext.symm, (code_iff_finish hback hstays).1 hcode⟩
  · rintro ⟨front, rest, rfl, hfinish⟩
    have hcode : (mark .code (front ++ c :: rest))[front.length]?.any (·.code) = true :=
      (code_iff_finish hback hstays).2 hfinish
    have hchar : ((mark .code (front ++ c :: rest)).map (·.char))[front.length]? = some c := by
      simp [map_char_mark]
    rw [List.getElem?_map] at hchar
    obtain ⟨⟨d, code⟩, hm, rfl⟩ := Option.map_eq_some_iff.1 hchar
    obtain rfl : code = true := by simpa [hm] using hcode
    exact List.mem_of_getElem? hm

theorem append_eq_append_cons_iff {α : Type} {c : α} {a b front rest : List α} :
    a ++ b = front ++ c :: rest ↔
      (∃ more, a = front ++ c :: more ∧ rest = more ++ b) ∨
        ∃ more, front = a ++ more ∧ b = more ++ c :: rest := by
  constructor
  · intro h
    rcases List.append_eq_append_iff.1 h with ⟨more, hf, hb⟩ | ⟨more, ha, hr⟩
    · exact .inr ⟨more, hf, hb⟩
    · cases more with
      | nil => exact .inr ⟨[], by simpa using ha.symm, hr.symm⟩
      | cons d more =>
        obtain ⟨rfl, hrest⟩ := List.cons.inj hr
        exact .inl ⟨more, ha, hrest⟩
  · rintro (⟨more, rfl, rfl⟩ | ⟨more, rfl, rfl⟩) <;> simp

theorem word_before_bracket {before word back : List Char}
    (h : front ++ '[' :: rest = before ++ (word ++ back)) (hw : ∀ c ∈ word, isIdent c = true)
    (hp : before.length ≤ front.length) :
    ∃ inner, front = before ++ (word ++ inner) ∧ back = inner ++ '[' :: rest := by
  rcases append_eq_append_cons_iff.1 h.symm with ⟨more, hbefore, -⟩ | ⟨more, hf, hb⟩
  · rw [hbefore, List.length_append, List.length_cons] at hp
    omega
  · rcases append_eq_append_cons_iff.1 hb with ⟨_, rfl, -⟩ | ⟨inner, rfl, hback⟩
    · exact absurd (hw '[' (by simp)) (by decide)
    · exact ⟨inner, hf, hback⟩

theorem keywordAt_append_bracket_iff (hk : keyword.all isIdent = true)
    (hp : place ≤ front.length) :
    KeywordAt keyword (front ++ '[' :: rest) place ↔ KeywordAt keyword front place := by
  have hmark {i : Nat} (hi : i < front.length) :
      (mark .code (front ++ '[' :: rest))[i]? = (mark .code front)[i]? := by
    have hm : Cursor.code.marks (some '[') front = mark .code front :=
      (Cursor.code_of_not_pairsBack rfl front).1
    rw [mark_code, Cursor.marks_append, ← hm]
    exact List.getElem?_append_left (by simpa using hi)
  constructor
  · rintro ⟨⟨before, word, back, ht, rfl, hw, hb, he⟩, hc⟩
    obtain ⟨inner, rfl, rfl⟩ := word_before_bracket ht (isIdent_of_map_toLower hk hw) hp
    have hl : word.length = keyword.length := by simpa using congrArg List.length hw
    refine ⟨⟨before, word, inner, rfl, rfl, hw, hb, ?_⟩, fun i hi => ?_⟩
    · cases inner with
      | nil => rfl
      | cons c inner => exact he
    · rw [← hmark (by simp only [List.length_append]; omega)]
      exact hc i hi
  · rintro ⟨⟨before, word, back, rfl, rfl, hw, hb, he⟩, hc⟩
    have hl : word.length = keyword.length := by simpa using congrArg List.length hw
    refine ⟨⟨before, word, back ++ '[' :: rest, by simp, rfl, hw, hb, ?_⟩, fun i hi => ?_⟩
    · cases back with
      | nil => rfl
      | cons c back => exact he
    · rw [hmark (by simp only [List.length_append]; omega)]
      exact hc i hi

-- ---------------------------------------------------------------------------
-- What stands behind a keyword
-- ---------------------------------------------------------------------------

theorem beginsWith_append {keyword : List Char} {a : List Marked} (h : keyword.length < a.length)
    (b : List Marked) : beginsWith keyword (a ++ b) = beginsWith keyword a := by
  induction keyword generalizing a with
  | nil =>
    obtain ⟨marked, a, rfl⟩ := List.exists_cons_of_length_pos h
    rfl
  | cons k ks ih =>
    obtain ⟨marked, a, rfl⟩ := List.exists_cons_of_length_pos (Nat.lt_trans (Nat.succ_pos _) h)
    simp only [List.length_cons, Nat.add_lt_add_iff_right] at h
    simp only [List.cons_append, beginsWith, ih h]

/-- A keyword that ends before a cut is found whatever stands behind the cut. -/
theorem foundAt_append_iff {before : Option Char} {a b : List Marked}
    (h : place + keyword.length < a.length) :
    FoundAt keyword before (a ++ b) place ↔ FoundAt keyword before a place := by
  have hle : place ≤ a.length := by omega
  have hdrop : keyword.length < (a.drop place).length := by
    rw [List.length_drop]
    omega
  rw [FoundAt, FoundAt, List.getElem?_append_left (by omega), List.take_append_of_le_length hle,
    List.drop_append_of_le_length hle, beginsWith_append hdrop]

theorem beginsWith_append_iff {word : List Marked} (hl : word.length = keyword.length)
    (b : List Marked) :
    beginsWith keyword (word ++ b) = true ↔
      beginsWith keyword word = true ∧ b.head?.any (isIdent ·.char) = false := by
  induction keyword generalizing word with
  | nil =>
    obtain rfl := List.eq_nil_of_length_eq_zero hl
    simp [beginsWith]
  | cons k ks ih =>
    obtain ⟨marked, word, rfl⟩ := List.exists_cons_of_length_eq_add_one hl
    simp only [List.length_cons, Nat.add_right_cancel_iff] at hl
    simp only [List.cons_append, beginsWith, Bool.and_eq_true, ih hl, and_assoc]

theorem any_head?_mark (p : Char → Bool) (text : List Char) :
    (mark .code text).head?.any (p ·.char) = text.head?.any p := by
  have hhead := congrArg List.head? (map_char_mark .code text)
  rw [List.head?_map] at hhead
  rw [← hhead, Option.any_map]

/-- A word that stays in code, at a place in code, is marked as code whatever stands behind it. -/
theorem mark_append_word {word : List Char} (hne : word ≠ [])
    (hstays : ∀ c ∈ word, leavesCode c = false)
    (hcode : Cursor.code.after word.head? front = Cursor.code) (rest : List Char) :
    mark .code (front ++ (word ++ rest)) =
      Cursor.code.marks word.head? front ++ (word.map (⟨·, true⟩) ++ mark .code rest) := by
  have hhead : (word ++ rest).head?.or none = word.head? := by
    obtain ⟨c, word, rfl⟩ := List.exists_cons_of_ne_nil hne
    rfl
  rw [mark_code, Cursor.marks_append, hhead, hcode, Cursor.marks_append,
    Cursor.marks_of_stays hstays, Cursor.after_of_stays hstays, ← mark_code]

theorem foundAt_append_word_iff {before : Option Char} {a word : List Marked} (hne : keyword ≠ [])
    (hl : word.length = keyword.length) (b : List Marked) :
    FoundAt keyword before (a ++ (word ++ b)) a.length ↔
      FoundAt keyword before (a ++ word) a.length ∧ b.head?.any (isIdent ·.char) = false := by
  have hfirst : (word ++ b)[0]? = word[0]? :=
    List.getElem?_append_left (hl ▸ List.length_pos_iff.2 hne)
  simp only [FoundAt, List.getElem?_append_right (Nat.le_refl _), Nat.sub_self, hfirst,
    List.take_left, List.drop_left, beginsWith_append_iff hl b, and_assoc]

/-- When the text behind its first place changes, a keyword is found there as before unless an
identifier goes on behind it. -/
theorem keywordPlace?_change_iff {word rest' : List Char} (hne : keyword ≠ [])
    (hk : keyword.all isIdent = true) (hl : word.length = keyword.length)
    (h : keywordPlace? keyword (front ++ (word ++ rest)) = some front.length) :
    keywordPlace? keyword (front ++ (word ++ rest')) = some front.length ↔
      rest'.head?.any isIdent = false := by
  obtain ⟨⟨⟨front', word', back, ht, hf, hw, -, -⟩, hcode⟩, -⟩ :=
    (keywordPlace?_eq_some_iff hne hk).1 h
  obtain ⟨rfl, hrest⟩ := List.append_inj ht hf.symm
  have hl' : word'.length = keyword.length := by simpa using congrArg List.length hw
  obtain ⟨rfl, -⟩ := List.append_inj hrest (hl.trans hl'.symm)
  have hstays (c : Char) (hc : c ∈ word) := stays_of_isIdent (isIdent_of_map_toLower hk hw c hc)
  have hword : word ≠ [] := by
    rintro rfl
    exact hne (List.eq_nil_of_length_eq_zero hl.symm)
  have hafter : Cursor.code.after word.head? front = Cursor.code := by
    have hcode := hcode 0 (List.length_pos_iff.2 hne)
    rw [mark_code] at hcode
    have hafter := Cursor.after_eq_code (s := Cursor.code) hcode
    obtain ⟨c, word, rfl⟩ := List.exists_cons_of_ne_nil hword
    exact hafter
  have hmark := mark_append_word hword hstays hafter
  generalize hbefore : Cursor.code.marks word.head? front = before at hmark
  have hlength : before.length = front.length := by simp [← hbefore]
  have hfound (more : List Char) :
      keywordPlace? keyword (front ++ (word ++ more)) = some front.length ↔
        (FoundAt keyword none (before ++ (word.map (⟨·, true⟩))) front.length ∧
          more.head?.any isIdent = false) ∧
        ∀ earlier < front.length,
          ¬FoundAt keyword none (before ++ word.map (⟨·, true⟩)) earlier := by
    rw [keywordPlace?, keywordAfter?_eq_some_iff, hmark, ← hlength,
      foundAt_append_word_iff hne (by simpa using hl), any_head?_mark]
    refine and_congr_right fun _ => forall₂_congr fun earlier he => not_congr ?_
    rw [← List.append_assoc]
    exact foundAt_append_iff (by simp [hl]; omega)
  rw [hfound] at h ⊢
  exact ⟨fun hthere => hthere.1.2, fun hnot => ⟨⟨h.1.1, hnot⟩, h.2⟩⟩

theorem isReference_iff {r : Reference} :
    IsReference text r ↔ Qualifies r.qualifier r.name ∧ ∃ front back,
      text = front ++ '[' :: (r.qualifier ++ ']' :: '.' :: (r.name ++ back)) ∧
      front.length = r.start ∧ back.head?.any isIdent = false ∧ finish .code front = .code := by
  constructor
  · rintro ⟨hq, ⟨front, back, ht, hs, hb⟩, hc⟩
    have ht' : text = front ++ '[' :: (r.qualifier ++ ']' :: '.' :: (r.name ++ back)) := by
      simpa [Reference.written] using ht
    refine ⟨hq, front, back, ht', hs, hb, ?_⟩
    rw [ht', ← hs] at hc
    exact code_bracket_iff.1 hc
  · rintro ⟨hq, front, back, rfl, hs, hb, hc⟩
    refine ⟨hq, ⟨front, back, by simp [Reference.written], hs, hb⟩, ?_⟩
    rw [← hs]
    exact code_bracket_iff.2 hc

end ViewRollout.Sql
