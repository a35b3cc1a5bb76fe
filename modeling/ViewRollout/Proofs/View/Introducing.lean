import ViewRollout.View.Cte
import ViewRollout.Proofs.Sql.Keyword
import ViewRollout.Proofs.Sql.Reader

/-!
# Where no CTE is introduced

Whether a text introduces a CTE is settled at the latest by the first letter
of its first FROM: a comment line cannot reach over it, no introducer has that
letter in its keyword, and a name is there as soon as its first letter is. So
a text may change behind that letter and still introduces nothing.
-/

namespace ViewRollout.View

open Sql Text

variable {f : Char} {front text : List Char}

/-- The first letter of FROM, in either case. -/
def IsF (f : Char) : Prop :=
  f = 'F' ∨ f = 'f'

theorem isF_of_toLower (h : f.toLower = 'f') : IsF f := by
  refine of_ascii_of_toLower_eq (p := fun f => f.toLower = 'f' → IsF f) ?_ (fun hl h => ?_) h
  · unfold IsF
    decide
  · exact .inr (hl.symm.trans h)

-- ---------------------------------------------------------------------------
-- Comment lines
-- ---------------------------------------------------------------------------

/-- What a reader of comment lines and a reader of regions know of the same place. A comment is
entered by its first dash, and its second one is still to come. -/
def SameComment (comment : Bool) (s : Cursor) (text : List Char) : Prop :=
  if comment then s.region = .lineComment ∧ (s.taken → text.head? = some '-') else s = Cursor.code

theorem sameComment_move (h : SameComment true s (c :: text)) (next : Option Char) :
    SameComment (c != '\n') (s.move c next) text := by
  obtain ⟨region, taken⟩ := s
  obtain ⟨rfl, ht⟩ := h
  cases taken with
  | true =>
    obtain rfl : c = '-' := by simpa using ht rfl
    exact ⟨rfl, nofun⟩
  | false =>
    by_cases hc : c = '\n'
    · subst hc
      rfl
    · rw [show (c != '\n') = true by simpa using hc]
      refine ⟨?_, ?_⟩ <;> simp [Cursor.move, Region.step, hc]

/-- Comment lines that are over before an F of the code do not depend on what follows it. -/
theorem dropComments_append {s : Cursor} {comment : Bool} (hf : IsF f)
    (hs : SameComment comment s (front ++ [f])) (h : s.after (some f) front = Cursor.code) :
    ∃ kept, ∀ back, dropComments comment (front ++ f :: back) = kept ++ f :: back := by
  induction front generalizing s comment with
  | nil =>
    obtain rfl : s = Cursor.code := h
    cases comment with
    | true => exact absurd hs.1 (by decide)
    | false =>
      refine ⟨[], fun back => ?_⟩
      rcases hf with rfl | rfl <;> rfl
  | cons c front ih =>
    rw [Cursor.after] at h
    cases comment with
    | true =>
      obtain ⟨kept, hk⟩ := ih (sameComment_move hs _) h
      exact ⟨kept, fun back => hk back⟩
    | false =>
      obtain rfl : s = Cursor.code := hs
      have hhead (back : List Char) : (front ++ f :: back).head? = (front ++ [f]).head? := by
        cases front <;> rfl
      by_cases hb : isBlank c = true
      · rw [Cursor.move_code_of_stays (stays_of_class hb (by decide))] at h
        obtain ⟨kept, hk⟩ := @ih Cursor.code false rfl h
        refine ⟨kept, fun back => ?_⟩
        rw [List.cons_append, dropComments, if_neg (by decide), if_pos hb, hk]
      · by_cases hd : c = '-' ∧ (front ++ [f]).head? = some '-'
        · obtain ⟨rfl, hd⟩ := hd
          have hn : (front.head?.or (some f)) = some '-' := by
            cases front <;> exact hd
          rw [hn] at h
          obtain ⟨kept, hk⟩ := @ih ⟨.lineComment, true⟩ true ⟨rfl, fun _ => hd⟩ h
          refine ⟨kept, fun back => ?_⟩
          rw [List.cons_append, dropComments, if_neg (by decide), if_neg hb, hhead,
            if_pos ⟨rfl, hd⟩, hk]
        · refine ⟨c :: front, fun back => ?_⟩
          rw [List.cons_append, dropComments, if_neg (by decide), if_neg hb, hhead, if_neg hd]

-- ---------------------------------------------------------------------------
-- Introducers
-- ---------------------------------------------------------------------------

theorem blanks?_append_cons (hf : isBlank f = false) (front back : List Char) :
    blanks? (front ++ f :: back) = (blanks? front).map (· ++ f :: back) := by
  cases front with
  | nil => simp [blanks?, hf]
  | cons c front =>
    rw [List.cons_append, blanks?, blanks?]
    split
    · rw [Option.map_some, trimStart_append_cons hf]
    · rfl

theorem keyword?_append_cons (hf : fold f ∉ keyword.map fold) (front back : List Char) :
    keyword? keyword (front ++ f :: back) = (keyword? keyword front).map (· ++ f :: back) := by
  induction keyword generalizing front with
  | nil => rfl
  | cons k ks ih =>
    obtain ⟨hk, hks⟩ := List.ne_and_not_mem_of_not_mem_cons hf
    cases front with
    | nil => exact keyword?_eq_none hk.symm ks back
    | cons c front =>
      rw [List.cons_append, keyword?, keyword?]
      split
      · exact ih hks front
      · rfl

theorem head?_dropTick_append_cons (hf : f ≠ backtick) (front back : List Char) :
    (dropTick (front ++ f :: back)).head? = (dropTick (front ++ [f])).head? := by
  cases front with
  | nil => simp [dropTick, hf]
  | cons c front =>
    rw [List.cons_append, List.cons_append, dropTick, dropTick]
    split
    · cases front <;> rfl
    · rfl

theorem isSome_introduced?_append_cons (hf : f ≠ backtick) (front back : List Char) :
    (introduced? (front ++ f :: back)).isSome = (introduced? (front ++ [f])).isSome := by
  rw [introduced?, introduced?, Option.isSome_map, Option.isSome_map, isSome_name?, isSome_name?,
    head?_dropTick_append_cons hf]

theorem isSome_read?_append_cons (hf : IsF f) (introducer : Introducer) (front back : List Char) :
    (introducer.read? (front ++ f :: back)).isSome = (introducer.read? (front ++ [f])).isSome := by
  have hblank : isBlank f = false := by rcases hf with rfl | rfl <;> decide
  have htick : f ≠ backtick := by rcases hf with rfl | rfl <;> decide
  cases introducer with
  | first =>
    have hwith : fold f ∉ ['W', 'I', 'T', 'H'].map fold := by
      rcases hf with rfl | rfl <;> decide
    simp only [Introducer.read?, keyword?_append_cons hwith]
    cases keyword? ['W', 'I', 'T', 'H'] front with
    | none => rfl
    | some rest =>
      simp only [Option.map_some, Option.bind_some, blanks?_append_cons hblank]
      cases blanks? rest with
      | none => rfl
      | some rest => exact isSome_introduced?_append_cons htick rest back
  | more =>
    cases front with
    | nil => rcases hf with rfl | rfl <;> rfl
    | cons c front =>
      by_cases hc : c = ','
      · subst hc
        show (introduced? (trimStart (front ++ f :: back))).isSome =
          (introduced? (trimStart (front ++ [f]))).isSome
        rw [trimStart_append_cons hblank, trimStart_append_cons hblank,
          isSome_introduced?_append_cons htick]
      · simp [Introducer.read?, hc]

/-- A text that introduces nothing may change behind an F of its code. -/
theorem read?_eq_none_append_cons {introducer : Introducer} {back : List Char} (hf : IsF f)
    (h : Cursor.code.after (some f) front = Cursor.code)
    (hn : introducer.read? (dropComments false (front ++ f :: back)) = none) (back' : List Char) :
    introducer.read? (dropComments false (front ++ f :: back')) = none := by
  obtain ⟨kept, hk⟩ := @dropComments_append f front Cursor.code false hf rfl h
  rw [hk, ← Option.isNone_iff_eq_none, ← Option.isSome_eq_false_iff,
    isSome_read?_append_cons hf] at hn ⊢
  exact hn

end ViewRollout.View
