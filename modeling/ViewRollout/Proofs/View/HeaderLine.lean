import ViewRollout.Proofs.View.HeaderPattern

/-!
# Headers on a line of their own

A header that was read from a text is written down again with a line break
behind it. `header?_line_iff` says when it is read back as it was: AS must not
begin the text behind a header that does not end in it, and where the name has
a backtick before it only, that text must not turn the name into a qualifier.
-/

namespace ViewRollout.View

open Sql Text

/-- A name as a header may have it. It is `dangling` with a backtick before it and none behind. -/
inductive IsHeaderName (name : List Char) : (dangling : Bool) → List Char → Prop where
  | qualified : IsQualifier qualifier → IsTick left → IsTick right →
      IsHeaderName name false (qualifier ++ '.' :: (left ++ (name ++ right)))
  | plain : IsTick right → IsHeaderName name false (name ++ right)
  | ticked : IsHeaderName name false (backtick :: (name ++ [backtick]))
  | dangling : IsHeaderName name true (backtick :: name)

/-- A header as it was taken from a text; `ends` tells whether it ends in AS. -/
inductive IsHeaderText (name : List Char) : (ends dangling : Bool) → List Char → Prop where
  | mk : IsOpening opening → IsHeaderName name dangling named → IsWord name → IsAs ends as →
      IsHeaderText name ends dangling (opening ++ (named ++ as))

theorem IsQualified.isHeaderName {qualified : List Char} (h : IsQualified name qualified) :
    IsHeaderName name false qualified := by
  cases h with
  | bare hn =>
    cases hn with
    | bare => simpa using (.plain (.inl rfl) : IsHeaderName name false (name ++ []))
    | ticked => exact .ticked
  | qualified hq hn =>
    cases hn with
    | bare => simpa using IsHeaderName.qualified hq (.inl rfl) (.inl rfl)
    | ticked => exact .qualified hq (.inr rfl) (.inr rfl)

/-- The text closes a backtick that was opened before it and goes on with a dot and a name. -/
def ClosesQualifier (text : List Char) : Prop :=
  ∃ inner after, text = inner ++ backtick :: '.' :: after ∧ backtick ∉ inner ∧
    (name? after).isSome = true

variable {name text rest named as lead behind : List Char} {ends dangling : Bool}

-- ---------------------------------------------------------------------------
-- What is taken
-- ---------------------------------------------------------------------------

theorem exists_headerName (h : qualifiedName? text = some (name, behind)) :
    ∃ dangling named, text = named ++ behind ∧ IsHeaderName name dangling named ∧ IsWord name := by
  rcases Option.or_eq_some_iff.1 h with h | ⟨-, h⟩
  · obtain ⟨after, hq, hn⟩ := Option.bind_eq_some_iff.1 h
    obtain ⟨qualifier, rfl, hqualifier⟩ := afterQualifier?_eq_some_iff.1 hq
    obtain ⟨left, right, rfl, hl, hr, hw, -, -⟩ := name?_eq_some_iff.1 hn
    exact ⟨false, _, by simp, .qualified hqualifier hl hr, hw⟩
  · obtain ⟨left, right, rfl, hl, hr, hw, -, -⟩ := name?_eq_some_iff.1 h
    rcases hl with rfl | rfl
    · exact ⟨false, name ++ right, by simp, .plain hr, hw⟩
    · rcases hr with rfl | rfl
      · exact ⟨true, backtick :: name, by simp, .dangling, hw⟩
      · exact ⟨false, backtick :: (name ++ [backtick]), by simp, .ticked, hw⟩

theorem exists_headerText (h : header? text = some (name, rest)) :
    ∃ ends dangling lead, text = lead ++ rest ∧ IsHeaderText name ends dangling lead := by
  obtain ⟨opening, after, behind, rfl, ho, -, hfound, rfl⟩ := exists_opening h
  obtain ⟨dangling, named, rfl, hn, hw⟩ := exists_headerName hfound
  obtain ⟨ends, as, has, ha, -⟩ := exists_dropAs behind
  refine ⟨ends, dangling, opening ++ (named ++ as), ?_, .mk ho hn hw ha⟩
  simp only [List.append_assoc]
  rw [← has]

theorem IsHeaderText.head (h : IsHeaderText name ends dangling lead) :
    ∃ c more, lead = c :: more ∧ fold c = 'c' := by
  obtain ⟨ho⟩ := h
  obtain ⟨c, more, rfl, hf⟩ := ho.head
  exact ⟨c, _, rfl, hf⟩

theorem IsHeaderText.head_not_blank (h : IsHeaderText name ends dangling lead)
    (rest : List Char) : (lead ++ rest).head?.any isBlank = false := by
  obtain ⟨⟨hc⟩⟩ := h
  simp only [List.append_assoc]
  exact hc.head_not_blank (by decide) _

theorem IsHeaderName.head_not_blank (hn : IsHeaderName name dangling named) (hw : IsWord name)
    (rest : List Char) : (named ++ rest).head?.any isBlank = false := by
  cases hn with
  | qualified hq =>
    rw [List.append_assoc]
    exact hq.head_not_blank _
  | plain =>
    rw [List.append_assoc]
    exact IsTick.head_not_blank (.inl rfl) hw _
  | ticked => rfl
  | dangling => rfl

-- ---------------------------------------------------------------------------
-- The name
-- ---------------------------------------------------------------------------

/-- What cannot be taken for more of a header's name. -/
def EndsName (text : List Char) : Prop :=
  endsWord text = true ∧ text.head? ≠ some backtick ∧ text.head? ≠ some '.'

theorem afterQualifier?_word (hw : IsWord name) (he : endsWord rest = true)
    (hd : rest.head? ≠ some '.') : afterQualifier? (name ++ rest) = none := by
  rw [Option.eq_none_iff_forall_ne_some]
  intro after h
  obtain ⟨qualifier, ht, hq⟩ := afterQualifier?_eq_some_iff.1 h
  obtain ⟨c, word, rfl, hc⟩ := hw.head
  cases hq with
  | bracket =>
    obtain rfl : c = '[' := (List.cons.inj ht).1
    exact absurd hc (by decide)
  | backtick =>
    obtain rfl : c = Sql.backtick := (List.cons.inj ht).1
    exact absurd hc (by decide)
  | word hq =>
    have hdot : endsWord ('.' :: after) = true := rfl
    have hread := word?_append hw he
    rw [ht, word?_append hq hdot] at hread
    obtain ⟨-, rfl⟩ := Prod.mk.inj (Option.some.inj hread)
    exact hd rfl

theorem afterQualifier?_backtick : afterQualifier? (backtick :: text) = some rest ↔
    ∃ inner, text = inner ++ backtick :: '.' :: rest ∧ backtick ∉ inner := by
  rw [afterQualifier?_eq_some_iff]
  constructor
  · rintro ⟨qualifier, ht, hq⟩
    cases hq with
    | bracket => exact absurd (List.cons.inj ht).1 (by decide)
    | @backtick inner hi =>
      refine ⟨inner, ?_, hi⟩
      simpa using (List.cons.inj ht).2
    | word hq =>
      obtain ⟨c, word, rfl, hc⟩ := hq.head
      obtain rfl : backtick = c := (List.cons.inj ht).1
      exact absurd hc (by decide)
  · rintro ⟨inner, rfl, hi⟩
    exact ⟨backtick :: (inner ++ [backtick]), by simp, .backtick hi⟩

theorem backtick_not_mem (hw : IsWord name) : backtick ∉ name :=
  fun hm => absurd (hw.2 _ hm) (by decide)

theorem behind_backtick {inner inner' rest rest' : List Char} (hi : backtick ∉ inner)
    (hi' : backtick ∉ inner') (h : inner ++ backtick :: rest = inner' ++ backtick :: rest') :
    rest = rest' := by
  have hdrop {inner rest : List Char} (hi : backtick ∉ inner) :
      (inner ++ backtick :: rest).dropWhile (· != backtick) = backtick :: rest :=
    dropWhile_append_stop (fun c hc => by simpa using ne_of_mem_of_not_mem hc hi) (by decide) rest
  have h := congrArg (List.dropWhile (· != backtick)) h
  rw [hdrop hi, hdrop hi'] at h
  exact (List.cons.inj h).2

theorem name?_tick {left right : List Char} (hl : IsTick left) (hr : IsTick right)
    (hw : IsWord name) (he : EndsName rest) :
    name? (left ++ (name ++ (right ++ rest))) = some (name, rest) := by
  refine name?_eq_some_iff.2 ⟨left, right, rfl, hl, hr, hw, ?_, fun _ => he.2.1⟩
  rcases hr with rfl | rfl
  · exact he.1
  · rfl

theorem qualifiedName?_append (hn : IsHeaderName name false named) (hw : IsWord name)
    (he : EndsName rest) : qualifiedName? (named ++ rest) = some (name, rest) := by
  cases hn with
  | @qualified qualifier left right hq hl hr =>
    simp only [List.append_assoc, List.cons_append]
    rw [qualifiedName?, afterQualifier?_append hq, Option.bind_some, name?_tick hl hr hw he,
      Option.some_or]
  | @plain right hr =>
    have hnone : afterQualifier? (name ++ (right ++ rest)) = none := by
      rcases hr with rfl | rfl
      · exact afterQualifier?_word hw he.1 he.2.2
      · exact afterQualifier?_word hw rfl fun hd => absurd (Option.some.inj hd) (by decide)
    rw [List.append_assoc, qualifiedName?, hnone, Option.bind_none, Option.none_or]
    exact name?_tick (.inl rfl) hr hw he
  | ticked =>
    have hnone : afterQualifier? (backtick :: (name ++ backtick :: rest)) = none := by
      rw [Option.eq_none_iff_forall_ne_some]
      intro after h
      obtain ⟨inner, ht, hi⟩ := afterQualifier?_backtick.1 h
      exact he.2.2 (congrArg List.head? (behind_backtick (backtick_not_mem hw) hi ht))
    have htext : backtick :: (name ++ [backtick]) ++ rest =
        [backtick] ++ (name ++ ([backtick] ++ rest)) := by simp
    rw [htext, qualifiedName?]
    show ((afterQualifier? (backtick :: (name ++ backtick :: rest))).bind name?).or _ = _
    rw [hnone, Option.bind_none, Option.none_or]
    exact name?_tick (.inr rfl) (.inr rfl) hw he

/-- Where no backtick stands in front, the first one stands in the rest. -/
theorem exists_closed {front inner after : List Char} (hf : backtick ∉ front)
    (h : front ++ rest = inner ++ backtick :: after) :
    ∃ closed, inner = front ++ closed ∧ rest = closed ++ backtick :: after := by
  rcases List.append_eq_append_iff.1 h with ⟨closed, hi, hrest⟩ | ⟨left, hfront, hrest⟩
  · exact ⟨closed, hi, hrest⟩
  · cases left with
    | nil => exact ⟨[], by simpa using hfront.symm, hrest.symm⟩
    | cons c left =>
      obtain rfl : backtick = c := (List.cons.inj hrest).1
      exact absurd (hfront ▸ by simp) hf

theorem closesQualifier_append {front : List Char} (hf : backtick ∉ front) :
    ClosesQualifier (front ++ rest) ↔ ClosesQualifier rest := by
  constructor
  · rintro ⟨inner, after, ht, hi, hn⟩
    obtain ⟨closed, rfl, hrest⟩ := exists_closed hf ht
    exact ⟨closed, after, hrest, fun hm => hi (List.mem_append_right _ hm), hn⟩
  · rintro ⟨inner, after, rfl, hi, hn⟩
    exact ⟨front ++ inner, after, by simp, by simp [hf, hi], hn⟩

theorem qualifiedName?_of_not_closesQualifier (hw : IsWord name) (he : EndsName rest)
    (hq : ¬ClosesQualifier rest) :
    qualifiedName? (backtick :: (name ++ rest)) = some (name, rest) := by
  have hnone : (afterQualifier? (backtick :: (name ++ rest))).bind name? = none := by
    rw [Option.eq_none_iff_forall_ne_some]
    intro found h
    obtain ⟨after, ha, hn⟩ := Option.bind_eq_some_iff.1 h
    obtain ⟨inner, ht, hi⟩ := afterQualifier?_backtick.1 ha
    have hclose : ClosesQualifier (name ++ rest) := ⟨inner, after, ht, hi, by rw [hn]; rfl⟩
    exact hq ((closesQualifier_append (backtick_not_mem hw)).1 hclose)
  rw [qualifiedName?, hnone, Option.none_or]
  exact name?_tick (.inr rfl) (.inl rfl) hw he

/-- A backtick that stands alone before the name is closed by the next one there is, and the name
behind that is taken. -/
theorem exists_of_closesQualifier {front : List Char} (hf : backtick ∉ front)
    (h : ClosesQualifier rest) :
    ∃ found, qualifiedName? (backtick :: (front ++ rest)) = some found ∧
      found.2.length < rest.length := by
  obtain ⟨inner, after, rfl, hi, hn⟩ := h
  obtain ⟨⟨word, behind⟩, hfound⟩ := Option.isSome_iff_exists.1 hn
  have ha : afterQualifier? (backtick :: (front ++ (inner ++ backtick :: '.' :: after))) =
      some after :=
    afterQualifier?_backtick.2 ⟨front ++ inner, by simp, by simp [hf, hi]⟩
  refine ⟨(word, behind), ?_, ?_⟩
  · rw [qualifiedName?, ha, Option.bind_some, hfound, Option.some_or]
  · have := length_of_name? hfound
    simp only [List.length_append, List.length_cons]
    omega

/-- What follows the name of a header: AS or not, and the line break. -/
theorem IsAs.endsName (ha : IsAs ends as) (rest : List Char) :
    EndsName (as ++ '\n' :: rest) := by
  obtain ⟨c, more, h, hb⟩ := ha.head rest
  rw [h]
  refine ⟨?_, ?_, ?_⟩
  · simp [endsWord, isWordChar_of_isBlank hb]
  · rintro ⟨⟩
    exact absurd hb (by decide)
  · rintro ⟨⟩
    exact absurd hb (by decide)

-- ---------------------------------------------------------------------------
-- The whole header
-- ---------------------------------------------------------------------------

theorem dropAs_line_iff (ha : IsAs ends as) (rest : List Char) :
    dropAs (as ++ '\n' :: rest) = '\n' :: rest ↔ (ends = false → as? (trimStart rest) = none) := by
  refine ⟨fun h he => ?_, dropAs_append ha⟩
  subst he
  cases ha
  have hb : isBlank '\n' = true := by decide
  rw [List.nil_append, dropAs, blanks?, if_pos hb, Option.bind_some] at h
  cases has : as? (trimStart rest) with
  | none => rfl
  | some after =>
    rw [has] at h
    obtain rfl : after = '\n' :: rest := h
    have h₁ := length_of_as? has
    have h₂ := length_trimStart_le rest
    simp only [List.length_cons] at h₁
    omega

theorem length_dropAs_le (text : List Char) : (dropAs text).length ≤ text.length := by
  obtain ⟨_, as, ht, -, -⟩ := exists_dropAs text
  have := congrArg List.length ht
  rw [List.length_append] at this
  omega

theorem IsAs.backtick_not_mem (ha : IsAs ends as) : backtick ∉ as := by
  cases ha with
  | absent => exact List.not_mem_nil
  | @present gap word hg hs =>
    intro hm
    rcases List.mem_append.1 hm with hm | hm
    · exact absurd (hg.2 _ hm) (by decide)
    · have hf : fold backtick ∈ word.map fold := List.mem_map_of_mem hm
      rw [hs] at hf
      exact absurd hf (by decide)

theorem IsAs.backtick_not_mem_line (ha : IsAs ends as) : backtick ∉ as ++ ['\n'] := by
  have hne : backtick ≠ '\n' := by decide
  simpa [ha.backtick_not_mem] using hne

/-- A name that a qualifier takes along leaves less than was there behind the header's line. -/
theorem header?_line_ne {opening : List Char} (ho : IsOpening opening) (hw : IsWord name)
    (ha : IsAs ends as) (hq : ClosesQualifier rest) :
    header? (opening ++ (backtick :: name ++ (as ++ '\n' :: rest))) ≠
      some (name, '\n' :: rest) := by
  have hfront : backtick ∉ name ++ (as ++ ['\n']) := by
    rw [List.mem_append, not_or]
    exact ⟨backtick_not_mem hw, ha.backtick_not_mem_line⟩
  obtain ⟨found, hfound, hlen⟩ := exists_of_closesQualifier hfront hq
  have htext : backtick :: name ++ (as ++ '\n' :: rest) =
      backtick :: (name ++ (as ++ ['\n']) ++ rest) := by simp
  rw [header?_opening ho rfl, htext, hfound]
  intro h
  have hrest : dropAs found.2 = '\n' :: rest := congrArg Prod.snd (Option.some.inj h)
  have hshort := length_dropAs_le found.2
  rw [hrest, List.length_cons] at hshort
  omega

/-- When a header with a line break behind it is read back as it was. -/
theorem header?_line_iff (h : IsHeaderText name ends dangling lead) :
    header? (lead ++ '\n' :: rest) = some (name, '\n' :: rest) ↔
      (ends = false → as? (trimStart rest) = none) ∧ (dangling = true → ¬ClosesQualifier rest) := by
  obtain ⟨ho, hn, hw, ha⟩ := h
  rename_i opening named as
  have hend := ha.endsName rest
  have hread (hname : qualifiedName? (named ++ (as ++ '\n' :: rest)) =
      some (name, as ++ '\n' :: rest)) :
      header? (opening ++ (named ++ (as ++ '\n' :: rest))) = some (name, '\n' :: rest) ↔
        (ends = false → as? (trimStart rest) = none) := by
    rw [header?_opening ho (hn.head_not_blank hw _), hname, ← dropAs_line_iff ha]
    simp
  simp only [List.append_assoc]
  cases dangling with
  | false => simp [hread (qualifiedName?_append hn hw hend)]
  | true =>
    cases hn
    by_cases hq : ClosesQualifier rest
    · exact ⟨fun h => absurd h (header?_line_ne ho hw ha hq), fun h => absurd hq (h.2 rfl)⟩
    · have hnot : ¬ClosesQualifier (as ++ '\n' :: rest) := by
        rw [List.append_cons, closesQualifier_append ha.backtick_not_mem_line]
        exact hq
      rw [hread (qualifiedName?_of_not_closesQualifier hw hend hnot)]
      simp [hq]

theorem IsHeader.isHeaderText (h : IsHeader name ends text) :
    IsHeaderText name ends false text := by
  obtain ⟨hc, hg, hr, hv, hg', hq, hw, ha⟩ := h
  have hn : IsHeaderName name false _ := hq.isHeaderName
  simpa only [List.append_assoc] using IsHeaderText.mk (.mk hc hg hr hv hg') hn hw ha

theorem header?_append (h : IsHeader name ends text)
    (hr : ends = false → as? (trimStart rest) = none) :
    header? (text ++ '\n' :: rest) = some (name, '\n' :: rest) :=
  (header?_line_iff h.isHeaderText).2 ⟨hr, nofun⟩

end ViewRollout.View
