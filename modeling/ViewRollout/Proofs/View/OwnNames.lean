import ViewRollout.Proofs.View.Expansion

/-!
# Inlining nothing

The names that inlining knows are those of the view's own CTEs as well as
those of its dependencies. So it is no identity even without dependencies:
`inline_nothing` says what it makes of a view, and that it keeps the view
just when the body refers to none of the view's own CTEs with a qualifier.
-/

namespace ViewRollout.View

open Sql Text

variable {view : View} {place start : Nat} {refs : List Reference} {text result : List Char}

/-- An edit that reduces anything makes another text. -/
theorem Edited.eq_iff (h : Edited place refs text result) : result = text ↔ refs = [] := by
  constructor
  · rintro rfl
    refine Classical.not_not.1 fun hne => ?_
    exact absurd (h.byteSize_lt hne) (Nat.lt_irrefl _)
  · rintro rfl
    cases h
    rfl

theorem mem_reducedReferences_nil (hf : view.FirstFrom start) {r : Reference} :
    r ∈ reducedReferences view [] start ↔ IsReference view.body.toList r ∧
      ReadsBy view.body.toList r.start ∧ names view.ctes r.name = true := by
  have hown : combinedCtes view [] = view.ctes := List.append_nil _
  rw [mem_reducedReferences, ← names_combinedCtes, hown, readsBy_iff hf]

theorem reducedReferences_nil_eq_nil_iff (hf : view.FirstFrom start) :
    reducedReferences view [] start = [] ↔ ∀ cte ∈ view.ctes, view.refersTo cte.name = false := by
  calc reducedReferences view [] start = []
      ↔ ¬∃ r, r ∈ reducedReferences view [] start := by simp [List.eq_nil_iff_forall_not_mem]
    _ ↔ ¬∃ cte ∈ view.ctes, view.refersTo cte.name = true := by
        simp only [refersTo_cte_iff, mem_reducedReferences_nil hf]
    _ ↔ ∀ cte ∈ view.ctes, view.refersTo cte.name = false := by simp

/-- A view with a FROM in its code takes in nothing without fail. All that changes is its body,
where references to its own CTEs lose their qualifiers, and so nothing does when there are none. -/
theorem inline_nothing (h : ∃ place, KeywordAt fromKeyword view.body.toList place) :
    ∃ result refs, view.inline [] = .ok result ∧ result = { view with body := result.body } ∧
      (∀ r, r ∈ refs ↔ IsReference view.body.toList r ∧ ReadsBy view.body.toList r.start ∧
        names view.ctes r.name = true) ∧
      Edited 0 refs view.body.toList result.body.toList ∧
      (result = view ↔ ∀ cte ∈ view.ctes, view.refersTo cte.name = false) := by
  obtain ⟨place, hk⟩ := h
  obtain ⟨start, hf⟩ := exists_firstFrom_of_keywordAt hk
  have hok := inline_of_firstFrom hf []
  obtain ⟨hedit, -⟩ := edited_inline hf hok
  generalize hbody : String.ofList (bareReferences _ start view.body.toList) = body at hok hedit
  have hown : combinedCtes view [] = view.ctes := List.append_nil _
  rw [hown] at hok
  refine ⟨_, _, hok, rfl, fun r => mem_reducedReferences_nil hf, hedit, ?_⟩
  calc { view with ctes := view.ctes, body := body } = view
      ↔ body.toList = view.body.toList := by
        rw [String.toList_inj]
        exact ⟨congrArg View.body, fun hb => hb ▸ rfl⟩
    _ ↔ reducedReferences view [] start = [] := hedit.eq_iff
    _ ↔ _ := reducedReferences_nil_eq_nil_iff hf

/-- A view with a CTE, which it reads by its bare name, and another view. -/
def readsOwn : View :=
  { ofQuery "c" "SELECT * FROM a JOIN [w].b" with ctes := [⟨"a", "(SELECT 1)"⟩] }

/-- A view that reads another one which is named like its own CTE. -/
def readsNamesake : View :=
  { readsOwn with body := "SELECT * FROM [w].a" }

theorem inline_nothing_readsOwn :
    KeywordAt fromKeyword readsOwn.body.toList 9 ∧ readsOwn.inline [] = .ok readsOwn := by
  have hk : KeywordAt fromKeyword readsOwn.body.toList 9 := (from?_eq_some_iff.1 (by decide)).1
  obtain ⟨result, refs, hok, -, -, -, hiff⟩ := inline_nothing ⟨9, hk⟩
  obtain rfl := hiff.2 (by decide)
  exact ⟨hk, hok⟩

theorem inline_nothing_readsNamesake :
    KeywordAt fromKeyword readsNamesake.body.toList 9 ∧
      readsNamesake.inline [] = .ok { readsNamesake with body := "SELECT * FROM a" } ∧
      readsNamesake.inline [] ≠ .ok readsNamesake := by
  have hk : KeywordAt fromKeyword readsNamesake.body.toList 9 :=
    (from?_eq_some_iff.1 (by decide)).1
  have hok : readsNamesake.inline [] = .ok { readsNamesake with body := "SELECT * FROM a" } := by
    decide
  refine ⟨hk, hok, fun hsame => ?_⟩
  have hbody := congrArg View.body (Except.ok.inj (hok.symm.trans hsame))
  exact absurd hbody (by decide)

end ViewRollout.View
