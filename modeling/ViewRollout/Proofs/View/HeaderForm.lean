import ViewRollout.View.Header
import ViewRollout.Proofs.Sql.Piece

/-!
# Headers as they are written

The grammar of `CREATE OR REPLACE VIEW [reporting].sales AS` with all its
parts in view, and what the readers of keywords, qualifiers and AS take of
such a header.
-/

namespace ViewRollout.View

open Sql Text

/-- OR REPLACE with the blank space after it, or nothing. -/
inductive IsOrReplace : List Char → Prop where
  | absent : IsOrReplace []
  | present : Spells ['O', 'R'] first → IsGap gap →
      Spells ['R', 'E', 'P', 'L', 'A', 'C', 'E'] second → IsGap gap' →
      IsOrReplace (first ++ (gap ++ (second ++ gap')))

/-- What stands before the dot of a qualified name. -/
inductive IsQualifier : List Char → Prop where
  | bracket {inner : List Char} : (∀ c ∈ inner, c ≠ '[' ∧ c ≠ ']') →
      IsQualifier ('[' :: (inner ++ [']']))
  | backtick {inner : List Char} : backtick ∉ inner →
      IsQualifier (backtick :: (inner ++ [backtick]))
  | word : IsWord text → IsQualifier text

/-- A name with a qualifier and a dot before it, or without. -/
inductive IsQualified (name : List Char) : List Char → Prop where
  | bare : Named name text → IsQualified name text
  | qualified : IsQualifier qualifier → Named name text →
      IsQualified name (qualifier ++ '.' :: text)

/-- AS with the blank space before it, or nothing; `ends` tells which. -/
inductive IsAs : (ends : Bool) → List Char → Prop where
  | absent : IsAs false []
  | present : IsGap gap → Spells ['A', 'S'] text → IsAs true (gap ++ text)

/-- A header that creates a view of the name; `ends` tells whether it ends in AS. -/
inductive IsHeader (name : List Char) (ends : Bool) : List Char → Prop where
  | mk : Spells ['C', 'R', 'E', 'A', 'T', 'E'] create → IsGap gap → IsOrReplace replace →
      Spells ['V', 'I', 'E', 'W'] view → IsGap gap' → IsQualified name qualified →
      IsWord name → IsAs ends as →
      IsHeader name ends
        (create ++ (gap ++ (replace ++ (view ++ (gap' ++ (qualified ++ as))))))

-- ---------------------------------------------------------------------------
-- Keywords
-- ---------------------------------------------------------------------------

theorem spacedKeyword?_append (hk : Spells keyword text) (hg : IsGap gap)
    (hr : rest.head?.any isBlank = false) :
    spacedKeyword? keyword (text ++ (gap ++ rest)) = some rest := by
  rw [spacedKeyword?, keyword?_append hk, Option.bind_some, blanks?_append hg hr]

theorem dropOrReplace_append (hr : IsOrReplace replace) (hv : Spells ['V', 'I', 'E', 'W'] view)
    (rest : List Char) : dropOrReplace (replace ++ (view ++ rest)) = view ++ rest := by
  have hb : (view ++ rest).head?.any isBlank = false := hv.head_not_blank (by decide) rest
  cases hr with
  | absent =>
    obtain ⟨c, word, rfl, hc⟩ := hv.head
    have hn : spacedKeyword? ['O', 'R'] (c :: (word ++ rest)) = none := by
      rw [spacedKeyword?, keyword?_eq_none (by rw [hc]; decide)]
      rfl
    rw [List.nil_append, List.cons_append, dropOrReplace, hn]
    rfl
  | @present first gap second gap' h₁ hg h₂ hg' =>
    have hs : (second ++ (gap' ++ (view ++ rest))).head?.any isBlank = false :=
      h₂.head_not_blank (by decide) _
    rw [dropOrReplace]
    simp only [List.append_assoc]
    rw [spacedKeyword?_append h₁ hg hs, Option.bind_some, spacedKeyword?_append h₂ hg' hb]
    rfl

-- ---------------------------------------------------------------------------
-- Names
-- ---------------------------------------------------------------------------

theorem dropWhile_append_stop {p : Char → Bool} {inner : List Char} (h : ∀ c ∈ inner, p c = true)
    (hs : p stop = false) (rest : List Char) :
    (inner ++ stop :: rest).dropWhile p = stop :: rest := by
  rw [List.dropWhile_append_of_pos h, List.dropWhile_cons_of_neg (by simp [hs])]

theorem ne_bracket_of_isWordChar (h : isWordChar c = true) : c ≠ '[' := by
  rintro rfl
  exact absurd h (by decide)

theorem afterQualifier?_append (h : IsQualifier qualifier) (rest : List Char) :
    afterQualifier? (qualifier ++ '.' :: rest) = some rest := by
  cases h with
  | @bracket inner hi =>
    have hd : (inner ++ ']' :: '.' :: rest).dropWhile (fun c => c != '[' && c != ']') =
        ']' :: '.' :: rest :=
      dropWhile_append_stop (fun c hc => by simpa using hi c hc) (by decide) _
    simp only [List.cons_append, List.append_assoc, List.nil_append, afterQualifier?, hd]
    rfl
  | @backtick inner hi =>
    have hd : (inner ++ Sql.backtick :: '.' :: rest).dropWhile (· != Sql.backtick) =
        Sql.backtick :: '.' :: rest :=
      dropWhile_append_stop (fun c hc => by simpa using ne_of_mem_of_not_mem hc hi) (by decide) _
    simp only [List.cons_append, List.append_assoc, List.nil_append, afterQualifier?, hd]
    rfl
  | word hw =>
    obtain ⟨c, word, rfl, hc⟩ := hw.head
    have hd : (word ++ '.' :: rest).dropWhile isWordChar = '.' :: rest :=
      dropWhile_append_stop (fun d hd => hw.2 d (List.mem_cons_of_mem _ hd)) (by decide) rest
    simp only [List.cons_append, afterQualifier?, if_neg (ne_bracket_of_isWordChar hc),
      if_neg (ne_backtick_of_isWordChar hc), if_pos hc, hd]

-- ---------------------------------------------------------------------------
-- The whole header
-- ---------------------------------------------------------------------------

theorem IsAs.head (h : IsAs ends as) (rest : List Char) :
    ∃ c more, as ++ '\n' :: rest = c :: more ∧ isBlank c = true := by
  cases h with
  | absent => exact ⟨'\n', rest, rfl, by decide⟩
  | @present gap text hg _ =>
    obtain ⟨hne, hall⟩ := hg
    cases gap with
    | nil => exact absurd rfl hne
    | cons c gap => exact ⟨c, _, rfl, hall c (List.mem_cons_self ..)⟩

/-- A header takes AS along when it is there, and must not find one behind it when it is not. -/
theorem dropAs_append (h : IsAs ends as) (hr : ends = false → as? (trimStart rest) = none) :
    dropAs (as ++ '\n' :: rest) = '\n' :: rest := by
  cases h with
  | absent =>
    have hb : isBlank '\n' = true := by decide
    rw [List.nil_append, dropAs, blanks?, if_pos hb, Option.bind_some, hr rfl]
    rfl
  | @present gap text hg hs =>
    have hb : (text ++ '\n' :: rest).head?.any isBlank = false := hs.head_not_blank (by decide) _
    rw [List.append_assoc, dropAs, blanks?_append hg hb, Option.bind_some,
      as?_append hs (by simp [endsWord, isWordChar_newline])]
    rfl

theorem IsHeader.isWord (h : IsHeader name ends text) : IsWord name := by
  cases h
  assumption

-- ---------------------------------------------------------------------------
-- Finding the header
-- ---------------------------------------------------------------------------

/-- Whether the text has a header at the place, in code or not: the word CREATE begins there. -/
def headerAt (text : List Char) (place : Nat) : Bool :=
  !(text.take place).getLast?.any isWordChar && (header? (text.drop place)).isSome

end ViewRollout.View
