import ViewRollout.Proofs.Sql.Seam
import ViewRollout.Proofs.View.Edit

/-!
# References that inlining leaves

Reducing a reference takes its qualifier out of the text, and with it the
quotes and comments that the qualifier opened. What follows is then read
anew, so a bracket that began nothing before may begin a reference
afterwards. `refersTo_known_iff` says exactly when one to a known name does.
-/

namespace ViewRollout.View

open Sql Text

-- ---------------------------------------------------------------------------
-- Edits in two parts
-- ---------------------------------------------------------------------------

variable {place start : Nat} {refs refs' : List Reference}
variable {front front' rest rest' text result : List Char}

theorem Edited.unique (h : Edited place refs text result) (h' : Edited place refs text result') :
    result = result' := by
  induction h generalizing result' with
  | kept =>
    cases h'
    rfl
  | @reduced place gap text result r refs hs _ ih =>
    generalize ht : gap ++ (r.written ++ text) = whole at h'
    cases h' with
    | @reduced _ gap' text' result' _ _ hs' h =>
      obtain ⟨rfl, hrest⟩ := List.append_inj ht (by omega)
      rw [ih (List.append_cancel_left hrest ▸ h)]

theorem Edited.join (h : Edited place refs front front') (c : Char)
    (h' : Edited (place + front.length + 1) refs' rest rest') :
    Edited place (refs ++ refs') (front ++ c :: rest) (front' ++ c :: rest') :=
  h.concat (h'.cons c)

/-- A bracket of the edited text is one of the text itself, since no name holds one. -/
theorem Edited.split (h : Edited place refs text (front' ++ '[' :: rest'))
    (hn : ∀ r ∈ refs, '[' ∉ r.name) :
    ∃ refs₁ refs₂ front rest, refs = refs₁ ++ refs₂ ∧ text = front ++ '[' :: rest ∧
      Edited place refs₁ front front' ∧ Edited (place + front.length + 1) refs₂ rest rest' := by
  generalize hr : front' ++ '[' :: rest' = result at h
  induction h generalizing front' with
  | kept => exact ⟨[], [], front', rest', rfl, hr.symm, .kept, .kept⟩
  | @reduced place gap text result r refs hs h ih =>
    rcases append_eq_append_cons_iff.1 hr.symm with ⟨more, rfl, rfl⟩ | ⟨more, rfl, hm⟩
    · refine ⟨[], r :: refs, front', more ++ (r.written ++ text), rfl, by simp, .kept, ?_⟩
      refine .reduced ?_ h
      simp only [List.length_append, List.length_cons] at hs
      omega
    · rcases append_eq_append_cons_iff.1 hm with ⟨_, he, -⟩ | ⟨more, rfl, rfl⟩
      · exact absurd (he ▸ by simp) (hn r (List.mem_cons_self ..))
      · obtain ⟨refs₁, refs₂, front, rest, rfl, rfl, h₁, h₂⟩ :=
          ih (fun r hm => hn r (List.mem_cons_of_mem _ hm)) rfl
        refine ⟨r :: refs₁, refs₂, gap ++ (r.written ++ front), rest, rfl, by simp,
          .reduced hs h₁, ?_⟩
        rw [Reference.stop_eq, ← hs] at h₂
        simpa [Nat.add_assoc] using h₂

-- ---------------------------------------------------------------------------
-- What a view refers to
-- ---------------------------------------------------------------------------

/-- A FROM of the body's code stands at the place or before it. -/
def ReadsBy (text : List Char) (place : Nat) : Prop :=
  ∃ earlier ≤ place, KeywordAt fromKeyword text earlier

theorem exists_mem_referencesFrom {marks : List Marked} {name : List Char} :
    (∃ r ∈ referencesFrom place marks, r.name = name) ↔ ∃ before marked behind qualifier,
      marks = before ++ marked :: behind ∧ begun? marked behind = some (qualifier, name) := by
  constructor
  · rintro ⟨r, hr, rfl⟩
    obtain ⟨before, marked, behind, hm, -, hb⟩ := mem_referencesFrom_iff.1 hr
    exact ⟨before, marked, behind, r.qualifier, hm, hb⟩
  · rintro ⟨before, marked, behind, qualifier, hm, hb⟩
    exact ⟨⟨place + before.length, qualifier, name⟩,
      mem_referencesFrom_iff.2 ⟨before, marked, behind, hm, rfl, hb⟩, rfl⟩

theorem readsBy_iff {view : View} (h : view.FirstFrom start) :
    ReadsBy view.body.toList place ↔ start ≤ place := by
  constructor
  · rintro ⟨earlier, he, hk⟩
    have hs : ¬earlier < start := fun hlt => h.2 earlier hlt hk
    omega
  · exact fun hs => ⟨start, hs, h.1⟩

/-- A view refers to the names that stand in its body with a qualifier, from the first FROM on. -/
theorem refersTo_iff {view : View} {name : String} :
    view.refersTo name = true ↔ ∃ r, IsReference view.body.toList r ∧
      ReadsBy view.body.toList r.start ∧ r.name = name.toList := by
  rw [refersTo, references]
  cases hstart : view.from? with
  | none =>
    have hno := from?_eq_none_iff.1 hstart
    simp [ReadsBy, hno]
  | some start =>
    have hfirst := from?_eq_some_iff.1 hstart
    have hbehind := referencesBehind_eq hfirst.code
    calc ((Sql.references (view.body.toList.drop start)).any fun r => r.name == name.toList) = true
        ↔ ∃ r ∈ referencesFrom 0 (mark .code (view.body.toList.drop start)),
            r.name = name.toList := by
          simp [Sql.references]
      _ ↔ ∃ r ∈ referencesBehind view.body.toList start, r.name = name.toList := by
          rw [hbehind, exists_mem_referencesFrom, exists_mem_referencesFrom]
      _ ↔ _ := by
          simp only [referencesBehind, List.mem_filter, mem_references_iff, decide_eq_true_eq,
            readsBy_iff hfirst, and_assoc]

-- ---------------------------------------------------------------------------
-- What is left
-- ---------------------------------------------------------------------------

/-- Reducing the references of the text leaves one to a known name. It begins at a bracket of the
text that is code once the references before it are reduced, with a FROM before it; behind it
stand a qualifier and a known name once the references behind it are reduced. -/
inductive LeavesReference (known : List Char → Prop) : List Reference → List Char → Prop where
  | mk {refs refs' : List Reference} {front front' rest qualifier name back : List Char} :
      Edited 0 refs front front' → finish .code front' = .code → ReadsBy front' front'.length →
      Edited (front.length + 1) refs' rest (qualifier ++ ']' :: '.' :: (name ++ back)) →
      Qualifies qualifier name → back.head?.any isIdent = false → known name →
      LeavesReference known (refs ++ refs') (front ++ '[' :: rest)

theorem readsBy_append_bracket_iff :
    ReadsBy (front ++ '[' :: rest) front.length ↔ ReadsBy front front.length := by
  refine exists_congr fun place => and_congr_right fun hp => ?_
  exact keywordAt_append_bracket_iff (by decide) hp

theorem leavesReference_iff {known : List Char → Prop} (h : Edited 0 refs text result)
    (hn : ∀ r ∈ refs, '[' ∉ r.name) :
    LeavesReference known refs text ↔
      ∃ r, IsReference result r ∧ ReadsBy result r.start ∧ known r.name := by
  constructor
  · rintro ⟨h₁, hc, hf, h₂, hq, hb, hk⟩
    rename_i front front' rest qualifier name back
    rw [← Nat.zero_add front.length] at h₂
    obtain rfl := h.unique (h₁.join '[' h₂)
    refine ⟨⟨front'.length, qualifier, name⟩, ?_, readsBy_append_bracket_iff.2 hf, hk⟩
    exact isReference_iff.2 ⟨hq, front', back, rfl, rfl, hb, hc⟩
  · rintro ⟨r, hr, hf, hk⟩
    obtain ⟨hq, front', back, rfl, hs, hb, hc⟩ := isReference_iff.1 hr
    obtain ⟨refs₁, refs₂, front, rest, rfl, rfl, h₁, h₂⟩ := h.split hn
    rw [Nat.zero_add] at h₂
    rw [← hs] at hf
    exact .mk h₁ hc (readsBy_append_bracket_iff.1 hf) h₂ hq hb hk

theorem refersTo_cte_iff {view : View} :
    (∃ cte ∈ view.ctes, view.refersTo cte.name = true) ↔
      ∃ r, IsReference view.body.toList r ∧ ReadsBy view.body.toList r.start ∧
        names view.ctes r.name = true := by
  constructor
  · rintro ⟨cte, hm, h⟩
    obtain ⟨r, hr, hreads, hname⟩ := refersTo_iff.1 h
    exact ⟨r, hr, hreads, List.any_eq_true.2 ⟨cte, hm, by simp [hname]⟩⟩
  · rintro ⟨r, hr, hreads, hn⟩
    obtain ⟨cte, hm, hname⟩ := List.any_eq_true.1 hn
    exact ⟨cte, hm, refersTo_iff.2 ⟨r, hr, hreads, (beq_iff_eq.1 hname).symm⟩⟩

theorem leavesReference_inline {consumer view : View} {dependencies : List View}
    (hf : consumer.FirstFrom start) (h : consumer.inline dependencies = .ok view) :
    LeavesReference (Known consumer dependencies)
        (reducedReferences consumer dependencies start) consumer.body.toList ↔
      ∃ cte ∈ view.ctes, view.refersTo cte.name = true := by
  obtain ⟨hedit, hctes⟩ := edited_inline hf h
  have hn : ∀ r ∈ reducedReferences consumer dependencies start, '[' ∉ r.name := by
    intro r hr hm
    have hq := (mem_reducedReferences.1 hr).1.qualifies
    exact absurd (hq.name _ hm) (by decide)
  rw [leavesReference_iff hedit hn, refersTo_cte_iff, hctes]
  simp only [names_combinedCtes]

/-- An inlined view refers to none of its CTEs through a qualifier unless reducing the consumer's
references leaves such a reference. -/
theorem refersTo_known_iff {consumer view : View} {dependencies : List View}
    (hf : consumer.FirstFrom start) (h : consumer.inline dependencies = .ok view) :
    (∀ cte ∈ view.ctes, view.refersTo cte.name = false) ↔
      ¬LeavesReference (Known consumer dependencies)
        (reducedReferences consumer dependencies start) consumer.body.toList := by
  rw [leavesReference_inline hf h, not_exists]
  refine forall_congr' fun cte => ?_
  rw [not_and, Bool.not_eq_true]

/-- A name with two qualifiers, of which inlining takes off one. -/
def twiceQualified : View where
  name := "top"
  preamble := ""
  header := "CREATE VIEW top AS"
  ctes := []
  body := "SELECT 1 FROM [srv].[w].low"

def lowView : View where
  name := "low"
  preamble := ""
  header := "CREATE VIEW low AS"
  ctes := []
  body := "SELECT 1 FROM t"

theorem refersTo_twiceQualified :
    ∃ view, twiceQualified.inline [lowView] = .ok view ∧
      ∃ cte ∈ view.ctes, view.refersTo cte.name = true := by
  refine ⟨_, rfl, ?_⟩
  decide

theorem leavesReference_twiceQualified :
    twiceQualified.FirstFrom 9 ∧ ∃ view, twiceQualified.inline [lowView] = .ok view ∧
      LeavesReference (Known twiceQualified [lowView])
        (reducedReferences twiceQualified [lowView] 9) twiceQualified.body.toList ∧
      ¬∀ cte ∈ view.ctes, view.refersTo cte.name = false := by
  have hf : twiceQualified.FirstFrom 9 := from?_eq_some_iff.1 (by decide)
  obtain ⟨view, hok, hrefers⟩ : ∃ view, twiceQualified.inline [lowView] = .ok view ∧
      ¬∀ cte ∈ view.ctes, view.refersTo cte.name = false :=
    ⟨_, rfl, by decide⟩
  have hleaves := Classical.not_not.1 fun hn => hrefers ((refersTo_known_iff hf hok).2 hn)
  exact ⟨hf, view, hok, hleaves, hrefers⟩

end ViewRollout.View
