import ViewRollout.Proofs.Sql.Reader
import ViewRollout.Proofs.View.HeaderForm

/-!
# The pattern of headers

`isSome_header?_iff`: a header is read exactly where the text begins with
`CREATE [OR REPLACE] VIEW [qualifier.]name [AS]`. The reader commits itself at
every step, and a step that took nothing, or took a qualifier, never hides a
name from the next one. So it finds a header whenever there is one, but not
always the one with that name: behind a backtick that stands alone the text up
to the next one may yet turn out to be a qualifier.
-/

namespace ViewRollout.View

open Sql Text

-- ---------------------------------------------------------------------------
-- The pattern
-- ---------------------------------------------------------------------------

/-- CREATE, OR REPLACE if it is there, and VIEW, each with the blank space behind it. -/
inductive IsOpening : List Char → Prop where
  | mk : Spells ['C', 'R', 'E', 'A', 'T', 'E'] create → IsGap gap → IsOrReplace replace →
      Spells ['V', 'I', 'E', 'W'] view → IsGap gap' →
      IsOpening (create ++ (gap ++ (replace ++ (view ++ gap'))))

/-- A qualifier and its dot, or nothing. -/
inductive IsQualification : List Char → Prop where
  | absent : IsQualification []
  | present : IsQualifier qualifier → IsQualification (qualifier ++ ['.'])

/-- What the pattern `CREATE [OR REPLACE] VIEW [qualifier.]name [AS]` matches in front of `rest`.
The name may have a backtick on either side, and AS has to be a whole word. -/
inductive Matches (name rest : List Char) : List Char → Prop where
  | mk : IsOpening opening → IsQualification qualification → IsTick left → IsWord name →
      IsTick right → IsAs ends as → (ends = true → endsWord rest = true) →
      Matches name rest (opening ++ (qualification ++ (left ++ (name ++ (right ++ as)))))

variable {keyword text rest after opening name : List Char}

-- ---------------------------------------------------------------------------
-- Readers of the pattern's pieces
-- ---------------------------------------------------------------------------

theorem spacedKeyword?_eq_some_iff :
    spacedKeyword? keyword text = some rest ↔ ∃ word gap, text = word ++ (gap ++ rest) ∧
      Spells keyword word ∧ IsGap gap ∧ rest.head?.any isBlank = false := by
  constructor
  · intro h
    obtain ⟨after, hk, hb⟩ := Option.bind_eq_some_iff.1 h
    obtain ⟨word, rfl, hw⟩ := keyword?_eq_some_iff.1 hk
    obtain ⟨gap, rfl, hg, hr⟩ := blanks?_eq_some_iff.1 hb
    exact ⟨word, gap, rfl, hw, hg, hr⟩
  · rintro ⟨word, gap, rfl, hw, hg, hr⟩
    exact spacedKeyword?_append hw hg hr

theorem exists_dropOrReplace (text : List Char) :
    ∃ replace, text = replace ++ dropOrReplace text ∧ IsOrReplace replace := by
  rw [dropOrReplace]
  cases h : (spacedKeyword? ['O', 'R'] text).bind
      (spacedKeyword? ['R', 'E', 'P', 'L', 'A', 'C', 'E']) with
  | none => exact ⟨[], rfl, .absent⟩
  | some rest =>
    obtain ⟨after, hor, hreplace⟩ := Option.bind_eq_some_iff.1 h
    obtain ⟨first, gap, rfl, h₁, hg, -⟩ := spacedKeyword?_eq_some_iff.1 hor
    obtain ⟨second, gap', rfl, h₂, hg', -⟩ := spacedKeyword?_eq_some_iff.1 hreplace
    refine ⟨first ++ (gap ++ (second ++ gap')), ?_, .present h₁ hg h₂ hg'⟩
    simp only [Option.getD_some, List.append_assoc]

theorem exists_dropWhile (p : Char → Bool) (text : List Char) :
    ∃ taken, text = taken ++ text.dropWhile p ∧ ∀ c ∈ taken, p c = true :=
  ⟨text.takeWhile p, List.takeWhile_append_dropWhile.symm, List.all_eq_true.1 List.all_takeWhile⟩

/-- What is left behind the text that a qualifier may be, by its first character. -/
def afterGroup (c : Char) (text : List Char) : List Char :=
  if c = '[' then
    match text.dropWhile (fun c => c != '[' && c != ']') with
    | ']' :: after => after
    | _ => []
  else if c = backtick then (text.dropWhile (· != backtick)).drop 1
  else if isWordChar c then text.dropWhile isWordChar
  else []

def afterDot? : List Char → Option (List Char)
  | '.' :: rest => some rest
  | _ => none

theorem afterQualifier?_cons (c : Char) (text : List Char) :
    afterQualifier? (c :: text) = afterDot? (afterGroup c text) := rfl

theorem eq_of_afterDot? (h : afterDot? text = some rest) : text = '.' :: rest := by
  unfold afterDot? at h
  split at h
  · rw [Option.some.inj h]
  · cases h

theorem exists_qualifier {c : Char} (h : afterGroup c text = '.' :: rest) :
    ∃ qualifier, c :: text = qualifier ++ '.' :: rest ∧ IsQualifier qualifier := by
  unfold afterGroup at h
  split at h
  · rename_i hc
    split at h
    · rename_i after hd
      obtain ⟨inner, ht, hi⟩ := exists_dropWhile (fun c => c != '[' && c != ']') text
      refine ⟨'[' :: (inner ++ [']']), ?_, .bracket fun c hc => by simpa using hi c hc⟩
      rw [hd, h] at ht
      rw [ht, hc]
      simp
    · cases h
  · split at h
    · rename_i hc
      obtain ⟨inner, ht, hi⟩ := exists_dropWhile (· != backtick) text
      cases hd : text.dropWhile (· != backtick) with
      | nil => rw [hd] at h; cases h
      | cons d after =>
        have hhead := List.head?_dropWhile_not (· != backtick) text
        obtain rfl : d = backtick := by simpa [hd] using hhead
        refine ⟨backtick :: (inner ++ [backtick]), ?_, .backtick fun hm => ?_⟩
        · rw [hd] at h ht
          rw [ht, hc, show after = '.' :: rest from h]
          simp
        · exact absurd (hi _ hm) (by decide)
    · split at h
      · rename_i hc
        obtain ⟨word, ht, hw⟩ := exists_dropWhile isWordChar text
        refine ⟨c :: word, by rw [List.cons_append, ← h, ← ht], .word ⟨List.cons_ne_nil _ _, ?_⟩⟩
        intro d hd
        rcases List.mem_cons.1 hd with rfl | hd
        · exact hc
        · exact hw d hd
      · cases h

theorem afterQualifier?_eq_some_iff :
    afterQualifier? text = some rest ↔
      ∃ qualifier, text = qualifier ++ '.' :: rest ∧ IsQualifier qualifier := by
  constructor
  · intro h
    cases text with
    | nil => cases h
    | cons c text =>
      rw [afterQualifier?_cons] at h
      exact exists_qualifier (eq_of_afterDot? h)
  · rintro ⟨qualifier, rfl, hq⟩
    exact afterQualifier?_append hq rest

/-- AS is taken along with the blank space before it, when both are there. -/
theorem exists_dropAs (text : List Char) :
    ∃ ends as, text = as ++ dropAs text ∧ IsAs ends as ∧
      (ends = true → endsWord (dropAs text) = true) := by
  rw [dropAs]
  cases h : (blanks? text).bind as? with
  | none => exact ⟨false, [], rfl, .absent, (absurd · Bool.false_ne_true)⟩
  | some rest =>
    obtain ⟨after, hb, ha⟩ := Option.bind_eq_some_iff.1 h
    obtain ⟨gap, rfl, hg, -⟩ := blanks?_eq_some_iff.1 hb
    obtain ⟨word, rfl, hw, he⟩ := as?_eq_some_iff.1 ha
    refine ⟨true, gap ++ word, ?_, .present hg hw, fun _ => he⟩
    rw [Option.getD_some, List.append_assoc]

/-- The name in a header, with its qualifier passed over. -/
def qualifiedName? (text : List Char) : Option (List Char × List Char) :=
  ((afterQualifier? text).bind name?).or (name? text)

theorem header?_opening (ho : IsOpening opening) (ha : after.head?.any isBlank = false) :
    header? (opening ++ after) =
      (qualifiedName? after).map fun (name, rest) => (name, dropAs rest) := by
  obtain ⟨hc, hg, hr, hv, hg'⟩ := ho
  rename_i create gap replace view gap'
  have hreplace : (replace ++ (view ++ (gap' ++ after))).head?.any isBlank = false := by
    cases hr with
    | absent => exact hv.head_not_blank (by decide) _
    | present h₁ => rw [List.append_assoc]; exact h₁.head_not_blank (by decide) _
  simp only [List.append_assoc]
  rw [header?, spacedKeyword?_append hc hg hreplace, Option.bind_some,
    dropOrReplace_append hr hv, spacedKeyword?_append hv hg' ha, Option.bind_some]
  rfl

theorem exists_opening (h : header? text = some (name, rest)) :
    ∃ opening after behind, text = opening ++ after ∧ IsOpening opening ∧
      after.head?.any isBlank = false ∧ qualifiedName? after = some (name, behind) ∧
      rest = dropAs behind := by
  rw [header?, Option.map_eq_some_iff] at h
  obtain ⟨⟨word, behind⟩, h, he⟩ := h
  obtain ⟨rfl, rfl⟩ := Prod.mk.inj he
  obtain ⟨begun, hc, h⟩ := Option.bind_eq_some_iff.1 h
  obtain ⟨after, hv, hn⟩ := Option.bind_eq_some_iff.1 h
  obtain ⟨create, gap, rfl, hcreate, hg, -⟩ := spacedKeyword?_eq_some_iff.1 hc
  obtain ⟨replace, hreplace, hr⟩ := exists_dropOrReplace begun
  obtain ⟨view, gap', hview, hw, hg', hb⟩ := spacedKeyword?_eq_some_iff.1 hv
  refine ⟨create ++ (gap ++ (replace ++ (view ++ gap'))), after, behind, ?_,
    .mk hcreate hg hr hw hg', hb, hn, rfl⟩
  simp only [List.append_assoc]
  rw [← hview, ← hreplace]

-- ---------------------------------------------------------------------------
-- Matches
-- ---------------------------------------------------------------------------

theorem exists_qualifiedName? {behind : List Char} (h : qualifiedName? text = some (name, behind)) :
    ∃ qualification after, text = qualification ++ after ∧ IsQualification qualification ∧
      name? after = some (name, behind) := by
  rcases Option.or_eq_some_iff.1 h with h | ⟨-, h⟩
  · obtain ⟨after, hq, hn⟩ := Option.bind_eq_some_iff.1 h
    obtain ⟨qualifier, rfl, hqualifier⟩ := afterQualifier?_eq_some_iff.1 hq
    exact ⟨qualifier ++ ['.'], after, by simp, .present hqualifier, hn⟩
  · exact ⟨[], text, rfl, .absent, h⟩

theorem isSome_name?_append {left : List Char} (hl : IsTick left) (hn : IsWord name)
    (rest : List Char) : (name? (left ++ (name ++ rest))).isSome = true := by
  rw [isSome_name?, dropTick_append hl (hn.head?_ne_backtick rest)]
  obtain ⟨c, word, rfl, hc⟩ := hn.head
  exact hc

theorem isSome_qualifiedName? {qualification : List Char} (hq : IsQualification qualification)
    (hn : (name? after).isSome = true) :
    (qualifiedName? (qualification ++ after)).isSome = true := by
  cases hq with
  | absent => rw [qualifiedName?, Option.isSome_or, List.nil_append, hn, Bool.or_true]
  | @present qualifier hq =>
    have ha : afterQualifier? (qualifier ++ ['.'] ++ after) = some after := by
      rw [List.append_assoc]
      exact afterQualifier?_append hq after
    rw [qualifiedName?, ha, Option.isSome_or, Option.bind_some, hn, Bool.true_or]

theorem IsQualifier.head_not_blank {qualifier : List Char} (hq : IsQualifier qualifier)
    (rest : List Char) : (qualifier ++ rest).head?.any isBlank = false := by
  cases hq with
  | bracket => rfl
  | backtick => rfl
  | word hw =>
    obtain ⟨c, word, rfl, hc⟩ := hw.head
    exact isBlank_of_isWordChar hc

theorem IsQualification.head_not_blank {qualification left : List Char}
    (hq : IsQualification qualification) (hl : IsTick left) (hn : IsWord name) (rest : List Char) :
    (qualification ++ (left ++ (name ++ rest))).head?.any isBlank = false := by
  cases hq with
  | absent => exact hl.head_not_blank hn rest
  | present hq =>
    rw [List.append_assoc]
    exact hq.head_not_blank _

theorem exists_matches (h : header? text = some (name, rest)) :
    ∃ lead, text = lead ++ rest ∧ Matches name rest lead := by
  obtain ⟨opening, after, behind, rfl, ho, -, hfound, rfl⟩ := exists_opening h
  obtain ⟨qualification, named, rfl, hq, hn⟩ := exists_qualifiedName? hfound
  obtain ⟨left, right, rfl, hl, hr, hw, -, -⟩ := name?_eq_some_iff.1 hn
  obtain ⟨ends, as, hb, ha, he⟩ := exists_dropAs behind
  refine ⟨_, ?_, .mk ho hq hl hw hr ha he⟩
  simp only [List.append_assoc]
  rw [← hb]

/-- A header is found exactly where the pattern matches. -/
theorem isSome_header?_iff :
    (header? text).isSome = true ↔
      ∃ name rest lead, text = lead ++ rest ∧ Matches name rest lead := by
  constructor
  · intro h
    obtain ⟨⟨name, rest⟩, hr⟩ := Option.isSome_iff_exists.1 h
    obtain ⟨lead, ht, hm⟩ := exists_matches hr
    exact ⟨name, rest, lead, ht, hm⟩
  · rintro ⟨name, rest, _, rfl, hm⟩
    obtain ⟨ho, hq, hl, hw, hr, ha, -⟩ := hm
    rename_i opening qualification left right ends as
    simp only [List.append_assoc]
    have hsome := isSome_qualifiedName? hq (isSome_name?_append hl hw (right ++ (as ++ rest)))
    rw [header?_opening ho (hq.head_not_blank hl hw _), Option.isSome_map]
    exact hsome

theorem IsOpening.head (h : IsOpening opening) :
    ∃ c more, opening = c :: more ∧ fold c = 'c' := by
  obtain ⟨hc⟩ := h
  obtain ⟨c, word, rfl, hf⟩ := hc.head
  exact ⟨c, _, rfl, hf⟩

theorem Matches.length_pos {lead : List Char} (h : Matches name rest lead) : 0 < lead.length := by
  obtain ⟨ho⟩ := h
  obtain ⟨c, more, rfl, -⟩ := ho.head
  exact Nat.succ_pos _

end ViewRollout.View
