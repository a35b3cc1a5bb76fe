import ViewRollout.Text.Blank
import ViewRollout.Text.Word

/-!
# Trimmed texts and words

A text is trimmed when neither its first nor its last character is blank.
No character of a word is blank, so words survive trimming, and blank space
ends a word.
-/

namespace ViewRollout.Text

-- ---------------------------------------------------------------------------
-- Blank space at the front
-- ---------------------------------------------------------------------------

theorem trimStart_append_of_blank (h : ∀ c ∈ gap, isBlank c = true) :
    trimStart (gap ++ text) = trimStart text :=
  List.dropWhile_append_of_pos h

theorem trimStart_eq_self (h : text.head?.any isBlank = false) : trimStart text = text := by
  cases text with
  | nil => rfl
  | cons c text => exact List.dropWhile_cons_of_neg (by simpa using h)

theorem head?_trimStart (text : List Char) : (trimStart text).head?.any isBlank = false := by
  induction text with
  | nil => rfl
  | cons c text ih =>
    rw [trimStart, List.dropWhile_cons]
    split
    · exact ih
    · simpa using ‹¬isBlank c = true›

-- ---------------------------------------------------------------------------
-- Blank space at the back
-- ---------------------------------------------------------------------------

theorem trimEnd_eq_self (h : text.getLast?.any isBlank = false) : trimEnd text = text := by
  have hr : text.reverse.head?.any isBlank = false := by simpa using h
  rw [trimEnd, show text.reverse.dropWhile isBlank = text.reverse from trimStart_eq_self hr,
    List.reverse_reverse]

theorem getLast?_trimEnd (text : List Char) : (trimEnd text).getLast?.any isBlank = false := by
  rw [trimEnd, List.getLast?_reverse]
  exact head?_trimStart text.reverse

theorem trimEnd_append (ha : a.getLast?.any isBlank = false) (b : List Char) :
    trimEnd (a ++ b) = a ++ trimEnd b := by
  rw [trimEnd, List.reverse_append, List.dropWhile_append]
  split
  · have hr := trimEnd_eq_self ha
    simp_all [trimEnd]
  · simp [trimEnd]

theorem trimEnd_isPrefix (text : List Char) : trimEnd text <+: text := by
  have h : text.reverse.dropWhile isBlank <:+ text.reverse := List.dropWhile_suffix _
  simpa [trimEnd] using List.reverse_prefix.2 h

theorem trimEnd_append_blank (text : List Char) :
    ∃ gap, trimEnd text ++ gap = text ∧ ∀ c ∈ gap, isBlank c = true := by
  refine ⟨(text.reverse.takeWhile isBlank).reverse, ?_, ?_⟩
  · rw [trimEnd, ← List.reverse_append, List.takeWhile_append_dropWhile, List.reverse_reverse]
  · intro c hc
    exact List.all_eq_true.1 (List.all_takeWhile (l := text.reverse)) c (List.mem_reverse.1 hc)

-- ---------------------------------------------------------------------------
-- Both ends
-- ---------------------------------------------------------------------------

theorem trimEnd_of_blank (h : ∀ c ∈ gap, isBlank c = true) : trimEnd gap = [] := by
  have hr : trimStart (gap.reverse ++ []) = trimStart [] :=
    trimStart_append_of_blank fun c hc => h c (List.mem_reverse.1 hc)
  rw [List.append_nil] at hr
  show (trimStart gap.reverse).reverse = []
  rw [hr]
  rfl

theorem trimEnd_append_of_blank (h : ∀ c ∈ gap, isBlank c = true) (text : List Char) :
    trimEnd (text ++ gap) = trimEnd text := by
  have hr : trimStart (gap.reverse ++ text.reverse) = trimStart text.reverse :=
    trimStart_append_of_blank fun c hc => h c (List.mem_reverse.1 hc)
  show (trimStart (text ++ gap).reverse).reverse = (trimStart text.reverse).reverse
  rw [List.reverse_append, hr]

theorem blank_trim_blank (text : List Char) :
    ∃ front back, text = front ++ (trim text ++ back) ∧
      (∀ c ∈ front, isBlank c = true) ∧ ∀ c ∈ back, isBlank c = true := by
  obtain ⟨back, hb, hback⟩ := trimEnd_append_blank (trimStart text)
  refine ⟨text.takeWhile isBlank, back, ?_, ?_, hback⟩
  · rw [trim, hb, trimStart, List.takeWhile_append_dropWhile]
  · exact List.all_eq_true.1 List.all_takeWhile

theorem head?_trim (text : List Char) : (trim text).head?.any isBlank = false := by
  have hp : trim text <+: trimStart text := trimEnd_isPrefix _
  cases ht : trim text with
  | nil => rfl
  | cons c rest =>
    obtain ⟨more, hm⟩ := ht ▸ hp
    have hh := head?_trimStart text
    rw [← hm] at hh
    exact hh

theorem trimStart_trimEnd (text : List Char) :
    trimStart (trimEnd text) = trimEnd (trimStart text) := by
  obtain ⟨front, back, ht, hf, hb⟩ := blank_trim_blank text
  show _ = trim text
  have hh := head?_trim text
  have hl : (trim text).getLast?.any isBlank = false := getLast?_trimEnd _
  generalize trim text = middle at ht hh hl ⊢
  subst ht
  cases middle with
  | nil =>
    have hall : ∀ c ∈ front ++ back, isBlank c = true := by
      intro c hc
      rcases List.mem_append.1 hc with hc | hc
      · exact hf c hc
      · exact hb c hc
    rw [List.nil_append, trimEnd_of_blank hall]
    rfl
  | cons c middle =>
    have hfl : (front ++ c :: middle).getLast?.any isBlank = false := by
      rw [List.getLast?_append, Option.or_of_isSome (by simp)]
      exact hl
    rw [← List.append_assoc, trimEnd_append_of_blank hb, trimEnd_eq_self hfl,
      trimStart_append_of_blank hf, trimStart_eq_self hh]

theorem trim_append_of_blank (h : ∀ c ∈ gap, isBlank c = true) (text : List Char) :
    trim (text ++ gap) = trim text := by
  rw [trim, ← trimStart_trimEnd, trimEnd_append_of_blank h, trimStart_trimEnd, trim]

theorem trim_eq_self_iff :
    trim text = text ↔ text.head?.any isBlank = false ∧ text.getLast?.any isBlank = false := by
  constructor
  · intro h
    refine ⟨?_, ?_⟩
    · rw [← h]
      exact head?_trim text
    · rw [← h]
      exact getLast?_trimEnd _
  · rintro ⟨hh, hl⟩
    rw [trim, trimStart_eq_self hh, trimEnd_eq_self hl]

-- ---------------------------------------------------------------------------
-- Where a text is cut
-- ---------------------------------------------------------------------------

theorem exists_trimStart (text : List Char) :
    ∃ gap, text = gap ++ trimStart text ∧ ∀ c ∈ gap, isBlank c = true := by
  refine ⟨text.takeWhile isBlank, ?_, ?_⟩
  · rw [trimStart, List.takeWhile_append_dropWhile]
  · exact List.all_eq_true.1 List.all_takeWhile

theorem trimStart_append_cons (hf : isBlank f = false) (front back : List Char) :
    trimStart (front ++ f :: back) = trimStart front ++ f :: back := by
  have hself : (f :: back).dropWhile isBlank = f :: back :=
    List.dropWhile_cons_of_neg (by simp [hf])
  rw [trimStart, trimStart, List.dropWhile_append, hself]
  split
  · rename_i he
    rw [List.isEmpty_iff.1 he, List.nil_append]
  · rfl

theorem trim_trimStart_of_append (h : trim (front ++ rest) = front ++ rest) :
    trim (trimStart rest) = trimStart rest := by
  refine trim_eq_self_iff.2 ⟨head?_trimStart rest, ?_⟩
  obtain ⟨gap, hgap, -⟩ := exists_trimStart rest
  cases ht : trimStart rest with
  | nil => rfl
  | cons c more =>
    have hlast := (trim_eq_self_iff.1 h).2
    rw [hgap, ht, ← List.append_assoc, List.getLast?_append, List.getLast?_cons, Option.some_or]
      at hlast
    rwa [List.getLast?_cons]

theorem trim_trim (text : List Char) : trim (trim text) = trim text :=
  trim_eq_self_iff.2 ⟨head?_trim text, getLast?_trimEnd _⟩

theorem length_trim_lt (hc : isBlank c = false) :
    (trim front).length < (trim (front ++ c :: rest)).length := by
  have hlast : (trimStart front ++ [c]).getLast?.any isBlank = false := by simpa using hc
  rw [trim, trim, trimStart_append_cons hc, List.append_cons, trimEnd_append hlast]
  have := (trimEnd_isPrefix (trimStart front)).length_le
  simp only [List.length_append, List.length_cons, List.length_nil]
  omega

theorem eq_nil_of_trim_eq {more lead : List Char} (hl : (more ++ lead).head?.any isBlank = false)
    (ht : trim front = trim (front ++ more)) : more = [] := by
  cases more with
  | nil => rfl
  | cons c more =>
    have hlt : (trim front).length < (trim (front ++ c :: more)).length := length_trim_lt hl
    rw [ht] at hlt
    exact absurd hlt (Nat.lt_irrefl _)

/-- A place that is not blank is told by what stands before it, even when that is trimmed. -/
theorem eq_of_trim_eq {lead lead' : List Char} (h : front ++ lead = behind ++ lead')
    (hl : lead.head?.any isBlank = false) (hl' : lead'.head?.any isBlank = false)
    (ht : trim front = trim behind) : front = behind := by
  rcases List.append_eq_append_iff.1 h with ⟨more, rfl, rfl⟩ | ⟨more, rfl, rfl⟩
  · rw [eq_nil_of_trim_eq hl ht, List.append_nil]
  · rw [eq_nil_of_trim_eq hl' ht.symm, List.append_nil]

-- ---------------------------------------------------------------------------
-- Words
-- ---------------------------------------------------------------------------

/-- Whether no range of one class meets a range of the other. -/
def Ranges.apart (r s : Ranges) : Bool :=
  r.all fun (a, b) => s.all fun (c, d) => b < c || d < a

theorem Ranges.not_contains_of_apart {r s : Ranges} (h : r.apart s = true)
    (hc : r.contains c = true) : s.contains c = false := by
  obtain ⟨⟨a, b⟩, hab, hin⟩ := List.any_eq_true.1 hc
  refine List.any_eq_false.2 ?_
  rintro ⟨x, y⟩ hxy
  have hd := List.all_eq_true.1 (List.all_eq_true.1 h _ hab) _ hxy
  simp only [Bool.and_eq_true, Bool.or_eq_true, decide_eq_true_eq] at hin hd ⊢
  omega

theorem blankRanges_apart_wordRanges : blankRanges.apart wordRanges = true := by
  decide +kernel

theorem isAlphanum_of_toNat {c : Char} (h : c.toNat < 48) : c.isAlphanum = false := by
  have hall : ∀ n < 48, (Char.ofNat n).isAlphanum = false := by decide
  have hc := hall c.toNat h
  rwa [Char.ofNat_toNat] at hc

theorem isWordChar_of_isBlank (h : isBlank c = true) : isWordChar c = false := by
  unfold isWordChar
  split
  · have hn : c.toNat < 48 := by
      simp [isBlank, blankRanges, Ranges.contains] at h
      omega
    have hu : c ≠ '_' := by
      rintro rfl
      exact absurd hn (by decide)
    simp [isAlphanum_of_toNat hn, hu]
  · exact Ranges.not_contains_of_apart blankRanges_apart_wordRanges h

theorem isBlank_of_isWordChar (h : isWordChar c = true) : isBlank c = false := by
  cases hb : isBlank c with
  | false => rfl
  | true => rw [isWordChar_of_isBlank hb] at h; cases h

end ViewRollout.Text
