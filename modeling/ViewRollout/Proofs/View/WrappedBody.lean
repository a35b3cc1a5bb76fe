import ViewRollout.Proofs.Sql.Balance
import ViewRollout.Proofs.Sql.Seam
import ViewRollout.Proofs.Text.Trimming
import ViewRollout.Proofs.View.Edit

/-!
# Bodies wrapped as groups

What a body loses when it becomes a group is blank space, then semicolons,
then blank space again, each from its end. So `wrapped_unterminated_iff`: no
`;` of its code is left in the group just when behind the first one there are
only more of them and then blank space. One that blank space or a comment
keeps apart from the end stays where it is.
-/

namespace ViewRollout.View

open Sql Text

variable {body front gap : List Char} {text : String}

-- ---------------------------------------------------------------------------
-- What is wrapped
-- ---------------------------------------------------------------------------

/-- A body without the semicolons at its end and the blank space around them. -/
def queryOf (body : List Char) : List Char :=
  trimEnd ((trimEnd body).reverse.dropWhile (· == ';')).reverse

theorem toList_asGroup (text : String) :
    (asGroup text).toList = '(' :: '\n' :: (queryOf text.toList ++ ['\n', ')']) := by
  simp [asGroup, queryOf]

theorem exists_behind_queryOf (body : List Char) :
    ∃ gap semicolons gap', body = queryOf body ++ (gap ++ (semicolons ++ gap')) ∧
      (∀ c ∈ gap, isBlank c = true) ∧ (∀ c ∈ semicolons, c = ';') ∧
      ∀ c ∈ gap', isBlank c = true := by
  obtain ⟨gap', hback, hblank'⟩ := trimEnd_append_blank body
  let ended := (trimEnd body).reverse
  obtain ⟨gap, hgap, hblank⟩ := trimEnd_append_blank (ended.dropWhile (· == ';')).reverse
  refine ⟨gap, (ended.takeWhile (· == ';')).reverse, gap', ?_, hblank, ?_, hblank'⟩
  · show body = trimEnd (ended.dropWhile (· == ';')).reverse ++ _
    rw [← List.append_assoc, hgap, ← List.append_assoc, ← List.reverse_append,
      List.takeWhile_append_dropWhile, List.reverse_reverse, hback]
  · intro c hc
    simpa using List.all_eq_true.1 List.all_takeWhile c (List.mem_reverse.1 hc)

/-- A run of semicolons at the end is taken off as a whole, with the blank space behind it. -/
theorem length_queryOf_le (hg : ∀ c ∈ gap, isBlank c = true) (n : Nat) :
    (queryOf (front ++ (List.replicate (n + 1) ';' ++ gap))).length ≤ front.length := by
  have hlast : (front ++ List.replicate (n + 1) ';').getLast?.any isBlank = false := by
    rw [List.replicate_succ', ← List.append_assoc, List.getLast?_concat]
    rfl
  have hsemi : ∀ c ∈ List.replicate (n + 1) ';', (c == ';') = true := fun c hc => by
    simp [List.eq_of_mem_replicate hc]
  rw [queryOf, ← List.append_assoc, trimEnd_append_of_blank hg, trimEnd_eq_self hlast,
    List.reverse_append, List.reverse_replicate, List.dropWhile_append_of_pos hsemi]
  calc (trimEnd (front.reverse.dropWhile (· == ';')).reverse).length
      ≤ (front.reverse.dropWhile (· == ';')).reverse.length := (trimEnd_isPrefix _).length_le
    _ ≤ front.length := by
      have := (List.dropWhile_sublist (l := front.reverse) (· == ';')).length_le
      simpa using this

-- ---------------------------------------------------------------------------
-- Terminators
-- ---------------------------------------------------------------------------

/-- The text has a `;` in its code. -/
def Terminated (text : List Char) : Prop :=
  ⟨';', true⟩ ∈ mark .code text

instance (text : List Char) : Decidable (Terminated text) :=
  inferInstanceAs (Decidable (_ ∈ _))

theorem terminated_iff :
    Terminated body ↔ ∃ front rest, body = front ++ ';' :: rest ∧ finish .code front = .code :=
  mem_mark_iff (by decide) (by decide)

/-- Between the lines of its parentheses the same is code as in the query alone. -/
theorem mark_group (query : List Char) :
    mark .code ('(' :: '\n' :: (query ++ ['\n', ')'])) = ⟨'(', true⟩ :: ⟨'\n', true⟩ ::
      (mark .code query ++ (Cursor.code.after (some '\n') query).marks none ['\n', ')']) := by
  have hstays : ∀ c ∈ ['(', '\n'], leavesCode c = false :=
    List.forall_mem_cons.2 ⟨rfl, List.forall_mem_singleton.2 rfl⟩
  have hquery := (Cursor.code_of_not_pairsBack (show (some '\n').any pairsBack = false from rfl)
    query).1
  rw [← hquery, mark_code]
  show Cursor.code.marks none (['(', '\n'] ++ (query ++ ['\n', ')'])) = _
  rw [Cursor.marks_append, Cursor.marks_of_stays hstays, Cursor.after_of_stays hstays,
    Cursor.marks_append]
  rfl

theorem terminated_asGroup :
    Terminated (asGroup text).toList ↔ Terminated (queryOf text.toList) := by
  simp [Terminated, toList_asGroup, mark_group, Cursor.marks]

/-- Behind each `;` of the code there are only more of them and then blank space. -/
def TerminatedAtEnd (body : List Char) : Prop :=
  ∀ front rest, body = front ++ ';' :: rest → finish .code front = .code →
    ∃ n gap, rest = List.replicate n ';' ++ gap ∧ ∀ c ∈ gap, isBlank c = true

theorem not_terminated_queryOf_iff : ¬Terminated (queryOf body) ↔ TerminatedAtEnd body := by
  obtain ⟨gap, semicolons, gap', hbody, hgap, hsemi, hback⟩ := exists_behind_queryOf body
  rw [terminated_iff]
  constructor
  · intro hnone front rest he hfinish
    rcases append_eq_append_cons_iff.1 (hbody.symm.trans he) with ⟨more, hq, -⟩ | ⟨more, -, htail⟩
    · exact absurd ⟨front, more, hq, hfinish⟩ hnone
    rcases append_eq_append_cons_iff.1 htail with ⟨inner, rfl, -⟩ | ⟨inner, -, htail⟩
    · exact absurd (hgap ';' (by simp)) (by decide)
    rcases append_eq_append_cons_iff.1 htail with ⟨inner, rfl, rfl⟩ | ⟨inner, -, rfl⟩
    · refine ⟨inner.length, gap', ?_, hback⟩
      rw [← List.eq_replicate_of_mem fun c hc => hsemi c (by simp [hc])]
    · exact absurd (hback ';' (by simp)) (by decide)
  · rintro hend ⟨front, rest, hq, hfinish⟩
    -- The run that ends here would have been taken off with this `;`.
    have he : body = front ++ ';' :: (rest ++ (gap ++ (semicolons ++ gap'))) := by
      rw [hbody, hq, List.append_assoc, List.cons_append]
    obtain ⟨n, blank, hrest, hblank⟩ := hend front _ he hfinish
    have hle : (queryOf (front ++ _)).length ≤ front.length := length_queryOf_le hblank n
    rw [List.replicate_succ, List.cons_append, ← hrest, ← he, hq] at hle
    simp only [List.length_append, List.length_cons] at hle
    omega

-- ---------------------------------------------------------------------------
-- Inlining
-- ---------------------------------------------------------------------------

/-- Inlining makes of a dependency's body a CTE without a `;` in its code just when nothing but
blank space keeps the body's own ones from its end. -/
theorem wrapped_unterminated_iff {consumer dependency view : View} {dependencies : List View}
    (h : consumer.inline dependencies = .ok view) (hd : dependency ∈ dependencies) :
    ⟨dependency.name, asGroup dependency.body⟩ ∈ view.ctes ∧
      (¬Terminated (asGroup dependency.body).toList ↔
        TerminatedAtEnd dependency.body.toList) := by
  refine ⟨?_, ?_⟩
  · obtain ⟨start, hfirst⟩ := exists_firstFrom_of_inline h
    rw [(edited_inline hfirst h).2]
    refine List.mem_append_right _ (List.mem_flatMap.2 ⟨dependency, hd, ?_⟩)
    simp [asCtes]
  · rw [terminated_asGroup]
    exact not_terminated_queryOf_iff

/-- Two terminators on lines of their own. -/
def twiceTerminated : View :=
  ofQuery "low" "SELECT 1 FROM t;\n;"

/-- A terminator and a comment behind it. -/
def terminatedBeforeComment : View :=
  ofQuery "mid" "SELECT 1 FROM t; -- done"

/-- Terminators that stand at the end, and one in a string. -/
def terminatedAtEnd : View :=
  ofQuery "high" "SELECT ';' FROM t ;; \n"

def readingAll : View :=
  ofQuery "top" "SELECT 1 FROM [w].low JOIN [w].mid JOIN [w].high"

theorem wrapped_unterminated_sample :
    ∃ view, readingAll.inline [terminatedAtEnd] = .ok view ∧
      ⟨"high", asGroup terminatedAtEnd.body⟩ ∈ view.ctes ∧
      ¬Terminated (asGroup terminatedAtEnd.body).toList ∧
      TerminatedAtEnd terminatedAtEnd.body.toList := by
  obtain ⟨view, hok⟩ : ∃ view, readingAll.inline [terminatedAtEnd] = .ok view := ⟨_, rfl⟩
  obtain ⟨hm, hiff⟩ := wrapped_unterminated_iff hok (List.mem_singleton_self terminatedAtEnd)
  have hnone : ¬Terminated (asGroup terminatedAtEnd.body).toList := by decide
  exact ⟨view, hok, hm, hnone, hiff.1 hnone⟩

/-- The code of both bodies has nothing but blank space and terminators from the first terminator
on, and they end in code and in a line comment. The groups keep a terminator all the same. -/
theorem wrapped_keeps_terminator :
    ∃ view, readingAll.inline [twiceTerminated, terminatedBeforeComment] = .ok view ∧
      ∀ dependency ∈ [twiceTerminated, terminatedBeforeComment],
        (∀ m ∈ (mark .code dependency.body.toList).dropWhile (· != ⟨';', true⟩),
          m.code = true → m.char = ';' ∨ isBlank m.char = true) ∧
        (finish .code dependency.body.toList).EndsInCode ∧
        ⟨dependency.name, asGroup dependency.body⟩ ∈ view.ctes ∧
        Terminated (asGroup dependency.body).toList := by
  refine ⟨_, rfl, ?_⟩
  decide

end ViewRollout.View
