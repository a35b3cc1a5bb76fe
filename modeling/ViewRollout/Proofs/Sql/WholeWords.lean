import ViewRollout.Proofs.Sql.ByteMarks

/-!
# Keywords as whole words

`keyword_whole_word`: in the bytes of a text a keyword is found at the first
place where it stands as an identifier of its own, in any case, all of it code.
No identifier is code in part only, so it does not matter that the search looks
at the first byte alone; and a reader is led by no letter, so it does not matter
in which case the letters of the text are written.
-/

namespace ViewRollout.Sql

open Text

variable {keyword keyword' text text' front word back a b : List Char} {c d : Char} {s : Cursor}
variable {region : Region} {next next' : Option Char} {place : Nat}

-- ---------------------------------------------------------------------------
-- Identifiers are code as a whole or not at all
-- ---------------------------------------------------------------------------

theorem not_pairsBack_of_isIdent (h : isIdent c = true) : pairsBack c = false := by
  have hn : c ∉ ['-', '/', '*'] := not_mem_of_class h (by decide)
  simpa [pairsBack, and_assoc] using hn

/-- Outside of code an identifier leads nowhere, wherever a reader meets it. -/
theorem Cursor.marks_of_isIdent (hr : s.region.Reached) (hn : s.region ≠ .code)
    (hw : ∀ c ∈ word, isIdent c = true) (next : Option Char) :
    s.marks next word = hidden word := by
  induction word generalizing s with
  | nil => rfl
  | cons c word ih =>
    obtain ⟨hc, hword⟩ := List.forall_mem_cons.1 hw
    have hmove : (s.move c (word.head?.or next)).region = s.region := by
      unfold Cursor.move
      split
      · rfl
      · rw [step_of_isIdent hr hc]
    have hcode : s.isCode c (word.head?.or next) = false := by simp [Cursor.isCode, hn]
    rw [Cursor.marks, hcode, ih (hmove ▸ hr) (hmove ▸ hn) hword]
    rfl

theorem mark_identifier (hw : ∀ c ∈ word, isIdent c = true) (front back : List Char) :
    ∃ before behind code, before.length = front.length ∧
      mark .code (front ++ (word ++ back)) = before ++ (word.map (⟨·, code⟩) ++ behind) := by
  cases word with
  | nil =>
    refine ⟨_, _, true, ?_, (List.take_append_drop front.length _).symm⟩
    simp [length_mark]
  | cons c word =>
    have hback := not_pairsBack_of_isIdent (hw c (List.mem_cons_self ..))
    have hreached : (Cursor.code.after (some c) front).region.Reached :=
      Cursor.reached_after (s := Cursor.code) trivial ..
    rw [mark_code, Cursor.marks_append, Cursor.marks_append]
    simp only [List.cons_append, List.head?_cons, Option.some_or]
    by_cases hcode : (Cursor.code.after (some c) front).region = .code
    · -- Code that the identifier is not a part of ends before it.
      have htaken : (Cursor.code.after (some c) front).taken = false :=
        Cursor.taken_after_of_endsInCode rfl hback (.inl hcode)
      rw [Cursor.eq_code hcode htaken, Cursor.marks_of_stays fun c hc => stays_of_isIdent (hw c hc)]
      exact ⟨_, _, true, Cursor.length_marks .., rfl⟩
    · rw [Cursor.marks_of_isIdent hreached hcode hw]
      exact ⟨_, _, false, Cursor.length_marks .., rfl⟩

theorem codeFlags_identifier (ht : text = front ++ (word ++ back))
    (hw : ∀ c ∈ word, isIdent c = true) :
    ∃ code, ∀ i < word.length, (codeFlags text)[front.length + i]? = some code := by
  obtain ⟨before, behind, code, hl, hmark⟩ := mark_identifier hw front back
  refine ⟨code, fun i hi => ?_⟩
  rw [codeFlags, ht, hmark, List.getElem?_map, ← hl,
    List.getElem?_append_right (Nat.le_add_right ..), Nat.add_sub_cancel_left,
    List.getElem?_append_left (by rwa [List.length_map]), List.getElem?_map,
    List.getElem?_eq_getElem hi]
  rfl

-- ---------------------------------------------------------------------------
-- The case of letters
-- ---------------------------------------------------------------------------

/-- The texts differ at most in the case of letters of ASCII. -/
def SameLetters (a b : List Char) : Prop :=
  a.map Char.toLower = b.map Char.toLower

instance (a b : List Char) : Decidable (SameLetters a b) :=
  inferInstanceAs (Decidable (_ = _))

theorem toLower_of_not_isIdent (h : isIdent c = false) : c.toLower = c :=
  of_ascii_of_toLower_eq (p := fun c => isIdent c = false → c.toLower = c) (by decide)
    (fun hc _ => hc) h

theorem eq_or_isIdent_of_toLower_eq (h : c.toLower = d.toLower) :
    c = d ∨ isIdent c = true ∧ isIdent d = true := by
  have hident : isIdent c = isIdent d := by rw [← isIdent_toLower, h, isIdent_toLower]
  cases hc : isIdent c with
  | true => exact .inr ⟨rfl, hident ▸ hc⟩
  | false =>
    rw [toLower_of_not_isIdent hc, toLower_of_not_isIdent (hident ▸ hc)] at h
    exact .inl h

theorem any_isIdent_of_toLower_eq (h : next.map Char.toLower = next'.map Char.toLower) :
    next.any isIdent = next'.any isIdent := by
  have hany (o : Option Char) : (o.map Char.toLower).any isIdent = o.any isIdent := by
    cases o <;> simp [isIdent_toLower]
  rw [← hany, h, hany]

theorem Region.step_of_toLower_eq (hr : region.Reached) (hc : c.toLower = d.toLower)
    (hnext : next.map Char.toLower = next'.map Char.toLower) :
    region.step c next = region.step d next' := by
  rcases eq_or_isIdent_of_toLower_eq hc with rfl | ⟨hc, hd⟩
  · cases next with
    | none => rw [Option.map_eq_none_iff.1 hnext.symm]
    | some e =>
      obtain ⟨e', rfl, he⟩ := Option.map_eq_some_iff.1 hnext.symm
      rcases eq_or_isIdent_of_toLower_eq he with rfl | ⟨he', he⟩
      · rfl
      · exact Region.step_some_of_not_pairsBack (not_pairsBack_of_isIdent he)
          (not_pairsBack_of_isIdent he') region c
  · rw [step_of_isIdent hr hc, step_of_isIdent hr hd]

theorem Cursor.map_code_marks (hr : s.region.Reached) (h : SameLetters a b) :
    (s.marks none a).map (·.code) = (s.marks none b).map (·.code) := by
  induction a generalizing s b with
  | nil =>
    rw [List.map_eq_nil_iff.1 h.symm]
  | cons c a ih =>
    obtain ⟨d, b, rfl, hd, hb⟩ := List.map_eq_cons_iff.1 h.symm
    have hhead : a.head?.map Char.toLower = b.head?.map Char.toLower := by
      rw [← List.head?_map, ← hb, List.head?_map]
    have hstep := Region.step_of_toLower_eq hr hd.symm hhead
    have hmove : s.move c a.head? = s.move d b.head? := by simp only [Cursor.move, hstep]
    have hcode : s.isCode c a.head? = s.isCode d b.head? := by simp only [Cursor.isCode, hstep]
    simp only [Cursor.marks, Option.or_none, List.map_cons]
    rw [hcode, ih (Cursor.reached_move hr c _) hb.symm, hmove]

/-- The case of letters leads no reader from code or to it. -/
theorem codeFlags_of_sameLetters (h : SameLetters a b) : codeFlags a = codeFlags b := by
  rw [codeFlags, codeFlags, mark_code, mark_code]
  exact Cursor.map_code_marks (s := Cursor.code) trivial h

theorem SameLetters.length_eq (h : SameLetters a b) : a.length = b.length := by
  simpa using congrArg List.length h

theorem SameLetters.any_head? (h : SameLetters a b) :
    a.head?.any isIdent = b.head?.any isIdent :=
  any_isIdent_of_toLower_eq (by rw [← List.head?_map, h, List.head?_map])

theorem SameLetters.any_getLast? (h : SameLetters a b) :
    a.getLast?.any isIdent = b.getLast?.any isIdent :=
  any_isIdent_of_toLower_eq (by rw [← List.getLast?_map, h, List.getLast?_map])

theorem KeywordAt.of_sameLetters (hk : SameLetters keyword keyword') (ht : SameLetters text text')
    (h : KeywordAt keyword text place) : KeywordAt keyword' text' place := by
  obtain ⟨⟨front, word, back, rfl, hl, hw, hfront, hback⟩, hcode⟩ := h
  obtain ⟨front', rest', rfl, hf, hrest⟩ := List.map_eq_append_iff.1
    (show text'.map Char.toLower = front.map Char.toLower ++ (word ++ back).map Char.toLower by
      rw [← List.map_append, ht])
  obtain ⟨word', back', rfl, hw', hb⟩ := List.map_eq_append_iff.1
    (hrest.trans (List.map_append))
  refine ⟨⟨front', word', back', rfl, ?_, ?_, ?_, ?_⟩, fun i hi => ?_⟩
  · rw [SameLetters.length_eq hf, hl]
  · rw [hw', hw, hk]
  · rw [SameLetters.any_getLast? hf, hfront]
  · rw [SameLetters.any_head? hb, hback]
  · rw [← codeFlags_eq_true_iff, ← codeFlags_of_sameLetters ht, codeFlags_eq_true_iff]
    exact hcode i (hk.length_eq ▸ hi)

theorem keywordAt_iff_of_sameLetters (hk : SameLetters keyword keyword')
    (ht : SameLetters text text') : KeywordAt keyword text place ↔ KeywordAt keyword' text' place :=
  ⟨.of_sameLetters hk ht, .of_sameLetters hk.symm ht.symm⟩

theorem keywordPlace?_of_sameLetters (hne : keyword ≠ []) (hident : keyword.all isIdent = true)
    (hk : SameLetters keyword keyword') (ht : SameLetters text text') :
    keywordPlace? keyword' text' = keywordPlace? keyword text := by
  have hne' : keyword' ≠ [] := by
    rintro rfl
    exact hne (List.map_eq_nil_iff.1 hk)
  have hident' : keyword'.all isIdent = true :=
    List.all_eq_true.2 (isIdent_of_map_toLower hident hk.symm)
  ext place
  rw [keywordPlace?_eq_some_iff hne hident, keywordPlace?_eq_some_iff hne' hident']
  simp only [keywordAt_iff_of_sameLetters hk ht]

theorem SameLetters.units (h : SameLetters a b) : SameLetters (Text.units a) (Text.units b) := by
  rw [SameLetters, map_toLower_units, map_toLower_units, h]

-- ---------------------------------------------------------------------------
-- Keywords in bytes
-- ---------------------------------------------------------------------------

/-- In the bytes of a text a keyword is found where it first stands as a whole identifier of the
code, in any case, and nowhere else; if it stands nowhere, it is not found. The bytes of every
identifier are code all together or none of them, and no letter of the text or of the keyword
counts by its case. -/
theorem keyword_whole_word (hne : keyword ≠ []) (hident : keyword.all isIdent = true)
    (text : List Char) :
    (∀ offset, (keywordPlace? keyword text).map (byteOffset text) = some offset ↔
      KeywordAt (units keyword) (units text) offset ∧
        ∀ earlier < offset, ¬KeywordAt (units keyword) (units text) earlier) ∧
    ((keywordPlace? keyword text).map (byteOffset text) = none ↔
      ∀ offset, ¬KeywordAt (units keyword) (units text) offset) ∧
    (∀ front word back, units text = front ++ (word ++ back) → (∀ c ∈ word, isIdent c = true) →
      ∃ code, ∀ i < word.length, (codeFlags (units text))[front.length + i]? = some code) ∧
    ∀ keyword' text', SameLetters keyword keyword' → SameLetters text text' →
      (keywordPlace? keyword' text').map (byteOffset text') =
        (keywordPlace? keyword text).map (byteOffset text) := by
  have hne' : units keyword ≠ [] := by
    intro h
    have hsize := length_units keyword
    rw [h, List.length_nil] at hsize
    exact hne (byteSize_eq_zero_iff.1 hsize.symm)
  have hident' : (units keyword).all isIdent = true :=
    List.all_eq_true.2 (of_mem_units bytewise_isIdent (List.all_eq_true.1 hident))
  simp only [← keywordPlace?_units]
  refine ⟨fun offset => keywordPlace?_eq_some_iff hne' hident',
    keywordPlace?_eq_none_iff hne' hident', fun _ _ _ ht hw => codeFlags_identifier ht hw,
    fun _ _ hk ht => keywordPlace?_of_sameLetters hne' hident' hk.units ht.units⟩

/-- A text with three times `from`: inside of another identifier, inside of quotes, and in code. -/
def mixedText : List Char :=
  "select é_from, 'from' FroM t".toList

theorem keyword_whole_word_mixedText :
    ['f', 'r', 'o', 'm'] ≠ [] ∧ ['f', 'r', 'o', 'm'].all isIdent = true ∧
      KeywordAt (units ['f', 'r', 'o', 'm']) (units mixedText) 23 ∧
      (keywordPlace? ['F', 'R', 'O', 'M'] (mixedText.map Char.toLower)).map
        (byteOffset (mixedText.map Char.toLower)) = some 23 := by
  have hne : ['f', 'r', 'o', 'm'] ≠ [] := by decide
  have hident : ['f', 'r', 'o', 'm'].all isIdent = true := by decide
  have hfound : (keywordPlace? ['f', 'r', 'o', 'm'] mixedText).map (byteOffset mixedText) =
      some 23 := by decide
  obtain ⟨hplace, -, -, hcase⟩ := keyword_whole_word hne hident mixedText
  refine ⟨hne, hident, ((hplace 23).1 hfound).1, ?_⟩
  rw [hcase ['F', 'R', 'O', 'M'] (mixedText.map Char.toLower) (by decide) (by decide), hfound]

end ViewRollout.Sql
