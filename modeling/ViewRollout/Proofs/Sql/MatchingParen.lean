import Mathlib.Data.List.Induction
import ViewRollout.Proofs.Sql.CheckedScan

/-!
# The parenthesis that matches

`closingParen_matches`: a group ends at the first place of the code behind its
`(` by which one more `)` than `(` has been read, and where the code has no
such place the group is reported as unclosed. What stands inside a group is
balanced, and what stands behind it has no say in where it ends.
-/

namespace ViewRollout.Sql

variable {code front : List (Nat × Char)} {depth place start : Nat} {n : Int} {text : List Char}

-- ---------------------------------------------------------------------------
-- How many parentheses are read
-- ---------------------------------------------------------------------------

/-- How many more `)` than `(` there are among the code. -/
def surplus (code : List (Nat × Char)) : Int :=
  code.countP (·.2 == ')') - code.countP (·.2 == '(')

@[simp] theorem surplus_nil : surplus [] = 0 := rfl

theorem surplus_singleton (place : Nat) (c : Char) :
    surplus [(place, c)] = if c = ')' then 1 else if c = '(' then -1 else 0 := by
  by_cases hclose : c = ')'
  · simp [surplus, hclose]
  · by_cases hopen : c = '('
    · simp [surplus, hopen]
    · simp [surplus, hclose, hopen]

theorem surplus_singleton_le (first : Nat × Char) : surplus [first] ≤ 1 := by
  rw [surplus_singleton]
  repeat' split
  all_goals decide

theorem surplus_append (a b : List (Nat × Char)) : surplus (a ++ b) = surplus a + surplus b := by
  simp only [surplus, List.countP_append]
  omega

/-- The surplus is first reached with the character at the place. -/
def FirstSurplus (n : Int) (code : List (Nat × Char)) (place : Nat) : Prop :=
  ∃ front c back, code = front ++ (place, c) :: back ∧ surplus (front ++ [(place, c)]) = n ∧
    ∀ earlier, earlier <+: front → surplus earlier ≠ n

theorem not_firstSurplus_nil : ¬FirstSurplus n [] place := by
  rintro ⟨front, c, back, h, -⟩
  simp at h

/-- One character of the code either reaches the surplus or is taken off what is to be reached. -/
theorem firstSurplus_cons (hn : n ≠ 0) (offset : Nat) (c : Char) :
    FirstSurplus n ((offset, c) :: code) place ↔
      if surplus [(offset, c)] = n then place = offset
      else FirstSurplus (n - surplus [(offset, c)]) code place := by
  have hcons (code : List (Nat × Char)) :
      surplus ((offset, c) :: code) = surplus [(offset, c)] + surplus code :=
    surplus_append [(offset, c)] code
  split
  · rename_i hreached
    constructor
    · rintro ⟨front, d, back, hcode, -, hfirst⟩
      cases front with
      | nil =>
        simp only [List.nil_append, List.cons.injEq, Prod.mk.injEq] at hcode
        exact hcode.1.1.symm
      | cons first front =>
        simp only [List.cons_append, List.cons.injEq] at hcode
        obtain ⟨rfl, -⟩ := hcode
        exact absurd hreached (hfirst _ (by simp))
    · rintro rfl
      refine ⟨[], c, code, rfl, hreached, fun earlier he => ?_⟩
      simp only [List.prefix_nil.1 he, surplus_nil]
      exact hn.symm
  · rename_i hreached
    constructor
    · rintro ⟨front, d, back, hcode, hsurplus, hfirst⟩
      cases front with
      | nil =>
        simp only [List.nil_append, List.cons.injEq, Prod.mk.injEq] at hcode
        obtain ⟨⟨rfl, rfl⟩, -⟩ := hcode
        exact absurd hsurplus hreached
      | cons first front =>
        simp only [List.cons_append, List.cons.injEq] at hcode hsurplus
        obtain ⟨rfl, rfl⟩ := hcode
        rw [hcons] at hsurplus
        refine ⟨front, d, back, rfl, by omega, fun earlier he hs => ?_⟩
        refine hfirst ((offset, c) :: earlier) (List.cons_prefix_cons.2 ⟨rfl, he⟩) ?_
        rw [hcons]
        omega
    · rintro ⟨front, d, back, rfl, hsurplus, hfirst⟩
      refine ⟨(offset, c) :: front, d, back, rfl, ?_, fun earlier he hs => ?_⟩
      · rw [List.cons_append, hcons]
        omega
      · cases earlier with
        | nil => exact hn hs.symm
        | cons first earlier =>
          obtain ⟨rfl, hprefix⟩ := List.cons_prefix_cons.1 he
          rw [hcons] at hs
          exact hfirst earlier hprefix (by omega)

-- ---------------------------------------------------------------------------
-- The running depth
-- ---------------------------------------------------------------------------

/-- The depth that the search counts down is what is left of the surplus to be reached. -/
theorem matchIn?_eq_some_iff :
    matchIn? (depth + 1) code = some (some place) ↔ FirstSurplus (depth + 1) code place := by
  induction code generalizing depth with
  | nil => simp [matchIn?, not_firstSurplus_nil]
  | cons first code ih =>
    obtain ⟨offset, c⟩ := first
    rw [firstSurplus_cons (by omega)]
    by_cases hopen : c = '('
    · have hs : surplus [(offset, c)] = -1 := by simp [surplus_singleton, hopen]
      rw [matchIn?, if_pos hopen, ih, hs, if_neg (by omega)]
      simp
    by_cases hclose : c = ')'
    · have hs : surplus [(offset, c)] = 1 := by simp [surplus_singleton, hclose]
      rw [matchIn?, if_neg hopen, if_pos hclose, Nat.ppred_succ, hs]
      cases depth with
      | zero => simp [eq_comm]
      | succ depth =>
        simp only [Option.bind_eq_bind, Option.bind_some, if_neg (Nat.succ_ne_zero depth), ih]
        rw [if_neg (by omega)]
        simp
    · have hs : surplus [(offset, c)] = 0 := by simp [surplus_singleton, hopen, hclose]
      rw [matchIn?, if_neg hopen, if_neg hclose, ih, hs, if_neg (by omega)]
      simp

theorem matchIn?_codeFrom (text : List Char) (start : Nat) :
    matchIn? 1 (codeFrom text start) =
      some ((closing? 0 (mark .code (text.drop start))).map (start + ·)) :=
  matchIn?_eq 0 (mark .code (text.drop start))

theorem firstSurplus_iff_closing? :
    FirstSurplus 1 (codeFrom text start) place ↔
      (closing? 0 (mark .code (text.drop start))).map (start + ·) = some place := by
  have hfirst : matchIn? 1 (codeFrom text start) = some (some place) ↔
      FirstSurplus 1 (codeFrom text start) place :=
    matchIn?_eq_some_iff
  simp only [matchIn?_codeFrom, Option.some.injEq] at hfirst
  exact hfirst.symm

theorem closingParen_eq_ok_iff_firstSurplus :
    closingParen text start = .ok place ↔ FirstSurplus 1 (codeFrom text start) place := by
  rw [firstSurplus_iff_closing?, closingParen]
  cases closing? 0 (mark .code (text.drop start)) <;> simp

theorem closingParen_eq_error_iff {defect : Defect} :
    closingParen text start = .error defect ↔ defect = .unclosedParen (start - 1) ∧
      ∀ place, ¬FirstSurplus 1 (codeFrom text start) place := by
  simp only [firstSurplus_iff_closing?, closingParen]
  cases closing? 0 (mark .code (text.drop start)) <;> simp [eq_comm]

-- ---------------------------------------------------------------------------
-- What stands inside and behind a group
-- ---------------------------------------------------------------------------

/-- The surplus grows by one at most, so it does not pass what it has not reached. -/
theorem surplus_lt_of_not_reached (hn : 0 < n)
    (h : ∀ earlier, earlier <+: front → surplus earlier ≠ n) : surplus front < n := by
  induction front using List.reverseRecOn with
  | nil => exact hn
  | append_singleton front first ih =>
    have hbefore := ih fun earlier he => h earlier (he.trans (List.prefix_append ..))
    have hnot := h _ List.prefix_rfl
    have hle := surplus_singleton_le first
    rw [surplus_append] at hnot ⊢
    omega

theorem FirstSurplus.balanced_inside (h : FirstSurplus 1 code place) :
    ∃ front back, code = front ++ (place, ')') :: back ∧ surplus front = 0 ∧
      ∀ earlier, earlier <+: front → surplus earlier ≤ 0 := by
  obtain ⟨front, c, back, rfl, hsurplus, hfirst⟩ := h
  have hinside : ∀ earlier, earlier <+: front → surplus earlier < 1 := fun earlier he =>
    surplus_lt_of_not_reached Int.one_pos fun first hf => hfirst first (hf.trans he)
  have hfront := hinside front List.prefix_rfl
  have hle := surplus_singleton_le (place, c)
  rw [surplus_append] at hsurplus
  have hone : surplus [(place, c)] = 1 := by omega
  have hc : c = ')' := by
    rw [surplus_singleton] at hone
    by_contra hne
    split at hone
    · exact hne ‹_›
    · split at hone <;> cases hone
  subst hc
  exact ⟨front, back, rfl, by omega, fun earlier he => Int.lt_add_one_iff.1 (hinside earlier he)⟩

theorem closingParen_take_append (h : closingParen text start = .ok place) (rest : List Char) :
    closingParen (text.take (place + 1) ++ rest) start = .ok place := by
  rw [closingParen] at h ⊢
  split at h
  · rename_i within hclosing
    cases h
    have hlt : within < (text.drop start).length := by
      rw [← length_mark .code]
      exact (List.getElem?_eq_some_iff.1 (closing?_eq_some_iff.1 hclosing).2).1
    rw [List.length_drop] at hlt
    have hdrop : (text.take (start + within + 1) ++ rest).drop start =
        (text.drop start).take (within + 1) ++ rest := by
      rw [List.drop_append_of_le_length (by rw [List.length_take]; omega), List.drop_take]
      congr 2
      omega
    rw [mark_code] at hclosing
    rw [hdrop, mark_code, closing?_marks_take_append hclosing]
  · cases h

/-- A group ends with the first character of the code by which the `)` outnumber the `(` by one;
where there is none its `(` is reported. The code inside of it is balanced, with no prefix that
closes more than it opens, and any text may stand behind it. The bytes of a text are such a text
too, when each is read as the character of its code. -/
theorem closingParen_matches (text : List Char) (start : Nat) :
    (∀ place, closingParen text start = .ok place ↔
      FirstSurplus 1 (codeFrom text start) place) ∧
    (∀ defect, closingParen text start = .error defect ↔
      defect = .unclosedParen (start - 1) ∧
        ∀ place, ¬FirstSurplus 1 (codeFrom text start) place) ∧
    ∀ place, closingParen text start = .ok place →
      (∃ front back, codeFrom text start = front ++ (place, ')') :: back ∧ surplus front = 0 ∧
        ∀ earlier, earlier <+: front → surplus earlier ≤ 0) ∧
      ∀ rest, closingParen (text.take (place + 1) ++ rest) start = .ok place := by
  refine ⟨fun place => closingParen_eq_ok_iff_firstSurplus, fun defect => closingParen_eq_error_iff,
    fun place h => ⟨?_, closingParen_take_append h⟩⟩
  exact (closingParen_eq_ok_iff_firstSurplus.1 h).balanced_inside

theorem closingParen_matches_sample :
    closingParen "(')' (-- )\n))-".toList 1 = .ok 12 ∧
      ∀ rest, closingParen ("(')' (-- )\n))".toList ++ rest) 1 = .ok 12 := by
  have hclosing : closingParen "(')' (-- )\n))-".toList 1 = .ok 12 := rfl
  exact ⟨hclosing, ((closingParen_matches "(')' (-- )\n))-".toList 1).2.2 12 hclosing).2⟩

end ViewRollout.Sql
