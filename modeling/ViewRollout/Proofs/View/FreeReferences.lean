import ViewRollout.Proofs.View.Leftover

/-!
# References that stand free

Nothing is left of the references to known names where SQL is written the
usual way: when no reduced qualifier holds a quote or opens a comment, the
reader sees in the result the code it saw in the text, and when no bracket
stands inside or right behind the reference that another one may begin, no
two references become one.
-/

namespace ViewRollout.View

open Sql Text

variable {place start : Nat} {refs : List Reference} {text result front front' rest : List Char}
variable {next : Option Char}

-- ---------------------------------------------------------------------------
-- Qualifiers that stay in code
-- ---------------------------------------------------------------------------

/-- A reference that a reader of code reads through without leaving it. -/
def Stays (r : Reference) : Prop :=
  Qualifies r.qualifier r.name ∧ ∀ c ∈ r.qualifier, leavesCode c = false

theorem Stays.written {r : Reference} (h : Stays r) : ∀ c ∈ r.written, leavesCode c = false := by
  intro c hc
  simp only [Reference.written, List.mem_cons, List.mem_append] at hc
  rcases hc with rfl | hc | rfl | rfl | hc
  · rfl
  · exact h.2 c hc
  · rfl
  · rfl
  · exact stays_of_isIdent (h.1.name c hc)

/-- A word that stays in code, behind a text that ends there, leaves no trace. -/
theorem after_append_word {gap word : List Char} (hg : finish .code gap = .code)
    (hw : ∀ c ∈ word, leavesCode c = false) (hh : ∃ c, word.head? = some c ∧ pairsBack c = false)
    (next : Option Char) (text : List Char) :
    Cursor.code.after next (gap ++ (word ++ text)) = Cursor.code.after next text := by
  obtain ⟨c, hc, hp⟩ := hh
  have hhead : ((word ++ text).head?.or next).any pairsBack = false := by
    cases word with
    | nil => cases hc
    | cons d word =>
      cases hc
      exact hp
  rw [Cursor.after_append, (Cursor.after_eq_code_iff hhead).2 hg, Cursor.after_append,
    Cursor.after_of_stays hw]

theorem Stays.after_written {r : Reference} {gap : List Char} (h : Stays r)
    (hg : finish .code gap = .code) (next : Option Char) (text : List Char) :
    Cursor.code.after next (gap ++ (r.written ++ text)) = Cursor.code.after next text :=
  after_append_word hg h.written ⟨'[', rfl, rfl⟩ next text

theorem Stays.after_name {r : Reference} {gap : List Char} (h : Stays r)
    (hg : finish .code gap = .code) (next : Option Char) (text : List Char) :
    Cursor.code.after next (gap ++ (r.name ++ text)) = Cursor.code.after next text := by
  refine after_append_word hg (fun c hc => stays_of_isIdent (h.1.name c hc)) ?_ next text
  obtain ⟨c, name, hname, hc⟩ := h.1.exists_cons
  have hn : c ∉ ['-', '/', '*'] := not_mem_of_class hc (by decide)
  simp only [List.mem_cons, not_or] at hn
  exact ⟨c, by rw [hname, List.head?_cons], by simp [pairsBack, hn]⟩

/-- The references begin in the code of the text, which stands behind `place` characters. -/
def BeginInCode (place : Nat) (refs : List Reference) (text : List Char) : Prop :=
  ∀ r ∈ refs, ∀ before behind, text = before ++ (r.written ++ behind) →
    place + before.length = r.start → finish .code before = .code

/-- The reader of the edited text comes out where the reader of the text does. -/
theorem Edited.after_eq (h : Edited place refs text result) (hr : ∀ r ∈ refs, Stays r)
    (hc : BeginInCode place refs text) :
    Cursor.code.after next result = Cursor.code.after next text := by
  induction h with
  | kept => rfl
  | @reduced place gap text result r refs hs _ ih =>
    have hstays := hr r (List.mem_cons_self ..)
    have hgap : finish .code gap = .code := hc r (List.mem_cons_self ..) gap text rfl hs
    rw [hstays.after_name hgap, hstays.after_written hgap]
    refine ih (fun q hq => hr q (List.mem_cons_of_mem _ hq)) ?_
    intro q hq before behind ht hb
    have hbefore := hc q (List.mem_cons_of_mem _ hq) (gap ++ (r.written ++ before)) behind
      (by simp [ht]) (by
        rw [Reference.stop_eq] at hb
        simp only [List.length_append]
        omega)
    rw [finish_code] at hbefore ⊢
    rwa [← hstays.after_written hgap none before]

-- ---------------------------------------------------------------------------
-- Brackets that stand apart
-- ---------------------------------------------------------------------------

/-- Text between two brackets such that what the first one begins may reach the second: the text
of a qualifier, or of a qualifier with the dot and some of a name. -/
def Tight (between : List Char) : Prop :=
  (∀ c ∈ between, isBracket c = false) ∨
    ∃ qualifier name, between = qualifier ++ ']' :: '.' :: name ∧
      (∀ c ∈ qualifier, isBracket c = false) ∧ ∀ c ∈ name, isIdent c = true

/-- No bracket of the text's code from the place on reaches a later one. -/
def StandFree (text : List Char) (start : Nat) : Prop :=
  ∀ front between rest, text = front ++ '[' :: (between ++ '[' :: rest) →
    start ≤ front.length → finish .code front = .code → ¬Tight between

/-- What reads as a reference behind a bracket after the edit did so before. -/
theorem Edited.reference_behind {qualifier name back : List Char}
    (h : Edited place refs rest (qualifier ++ ']' :: '.' :: (name ++ back)))
    (hq : Qualifies qualifier name) (hb : back.head?.any isIdent = false)
    (hr : ∀ r ∈ refs, Stays r)
    (hfree : ∀ between behind, rest = between ++ '[' :: behind → ¬Tight between) :
    ∃ back', rest = qualifier ++ ']' :: '.' :: (name ++ back') ∧
      back'.head?.any isIdent = false := by
  generalize he : qualifier ++ ']' :: '.' :: (name ++ back) = result at h
  cases h with
  | kept => exact ⟨back, he.symm, hb⟩
  | @reduced _ gap text result r refs _ h =>
    have hgap : ¬Tight gap := hfree gap (r.qualifier ++ ']' :: '.' :: r.name ++ text)
      (by simp [Reference.written])
    rcases append_eq_append_cons_iff.1 he.symm with ⟨more, rfl, hmore⟩ | ⟨more, rfl, -⟩
    · cases more with
      | nil =>
        -- The name cannot begin with the dot.
        obtain ⟨c, rest, hname, hc⟩ := (hr r (List.mem_cons_self ..)).1.exists_cons
        rw [hname] at hmore
        obtain ⟨rfl, -⟩ := List.cons.inj hmore
        exact absurd hc (by decide)
      | cons c more =>
        obtain ⟨rfl, hname⟩ := List.cons.inj hmore
        rcases List.append_eq_append_iff.1 hname with ⟨inner, rfl, hback⟩ | ⟨inner, rfl, -⟩
        · cases inner with
          | nil => exact absurd (.inr ⟨qualifier, name, by simp, hq.qualifier, hq.name⟩) hgap
          | cons c inner =>
            refine ⟨c :: inner ++ (r.written ++ text), by simp, ?_⟩
            rw [hback] at hb
            exact hb
        · refine absurd (.inr ⟨qualifier, more, rfl, hq.qualifier, fun c hc => ?_⟩) hgap
          exact hq.name c (List.mem_append_left _ hc)
    · refine absurd (.inl fun c hc => ?_) hgap
      exact hq.qualifier c (List.mem_append_left _ hc)

theorem beginInCode_of_isReference (h : ∀ r ∈ refs, IsReference (front ++ '[' :: rest) r) :
    BeginInCode 0 refs front := by
  intro r hr before behind hfront hl
  obtain ⟨-, front₀, back, ht, hs, -, hcode⟩ := isReference_iff.1 (h r hr)
  rw [hfront, List.append_assoc] at ht
  obtain ⟨rfl, -⟩ := List.append_inj ht (by omega)
  exact hcode

/-- A bracket with a FROM before it in the edited text stands behind the first FROM of the text. -/
theorem le_of_readsBy (h : Edited 0 refs front front') (hr : ∀ r ∈ refs, start ≤ r.start)
    (hfirst : ∀ earlier < start, ¬KeywordAt fromKeyword (front ++ '[' :: rest) earlier)
    (hreads : ReadsBy front' front'.length) : start ≤ front.length := by
  cases h with
  | kept =>
    obtain ⟨place, hp, hkw⟩ := hreads
    have hge : ¬place < start := fun hlt =>
      hfirst place hlt ((keywordAt_append_bracket_iff (by decide) hp).2 hkw)
    omega
  | @reduced _ gap text result r refs hs h =>
    have hle := hr r (List.mem_cons_self ..)
    simp only [List.length_append]
    omega

theorem not_leavesReference {known : List Char → Prop}
    (hrefs : ∀ r, r ∈ refs ↔ IsReference text r ∧ start ≤ r.start ∧ known r.name)
    (hfirst : ∀ earlier < start, ¬KeywordAt fromKeyword text earlier)
    (hstays : ∀ r ∈ refs, ∀ c ∈ r.qualifier, leavesCode c = false)
    (hfree : StandFree text start) : ¬LeavesReference known refs text := by
  rintro ⟨h₁, hc, hreads, h₂, hq, hb, hk⟩
  rename_i refs₁ refs₂ front front' rest qualifier name back
  have hall : ∀ r ∈ refs₁ ++ refs₂, Stays r :=
    fun r hr => ⟨((hrefs r).1 hr).1.qualifies, hstays r hr⟩
  have hleft (r : Reference) (hr : r ∈ refs₁) := List.mem_append_left refs₂ hr
  have hright (r : Reference) (hr : r ∈ refs₂) := List.mem_append_right refs₁ hr
  have hcode : finish .code front = .code := by
    have hbegin := beginInCode_of_isReference fun r hr => ((hrefs r).1 (hleft r hr)).1
    rw [finish_code] at hc ⊢
    rwa [← h₁.after_eq (fun r hr => hall r (hleft r hr)) hbegin]
  have hstart : start ≤ front.length :=
    le_of_readsBy h₁ (fun r hr => ((hrefs r).1 (hleft r hr)).2.1) hfirst hreads
  obtain ⟨back', rfl, hb'⟩ := h₂.reference_behind hq hb (fun r hr => hall r (hright r hr))
    fun between behind hrest => hfree front between behind (by rw [hrest]) hstart hcode
  have href : IsReference _ ⟨front.length, qualifier, name⟩ :=
    isReference_iff.2 ⟨hq, front, back', rfl, rfl, hb', hcode⟩
  -- The text has the reference already, so it would have been reduced.
  rcases List.mem_append.1 ((hrefs _).2 ⟨href, hstart, hk⟩) with hm | hm
  · have hle := (h₁.bounds _ hm).2
    rw [Reference.stop] at hle
    dsimp only at hle
    omega
  · have hle := (h₂.bounds _ hm).1
    dsimp only at hle
    omega

/-- Nothing is left of the references to known names when their qualifiers stay in code and the
brackets behind the first FROM stand free. -/
theorem no_reference_left {consumer view : View} {dependencies : List View}
    (hf : consumer.FirstFrom start) (h : consumer.inline dependencies = .ok view)
    (hstays : ∀ r ∈ reducedReferences consumer dependencies start, ∀ c ∈ r.qualifier,
      leavesCode c = false)
    (hfree : StandFree consumer.body.toList start) :
    ∀ cte ∈ view.ctes, view.refersTo cte.name = false := by
  have hnone := not_leavesReference (fun _ => mem_reducedReferences) hf.2 hstays hfree
  intro cte hm
  refine Bool.eq_false_iff.2 fun hrefers => ?_
  exact hnone ((leavesReference_inline hf h).2 ⟨cte, hm, hrefers⟩)

end ViewRollout.View
