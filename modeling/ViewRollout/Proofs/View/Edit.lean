import ViewRollout.View.Inlining
import ViewRollout.Proofs.Sql.Keyword
import ViewRollout.Proofs.Sql.Reference

/-!
# What inlining changes in a body

`Edited` says that a text differs from another one in that some references
stand there as bare names, and in nothing else. The body of an inlined view
is its consumer's body edited at the references to known names that begin at
the first FROM or behind it, as they are found in the whole body.
-/

namespace ViewRollout.View

open Sql Text

/-- The result is the text, which stands behind `place` characters, with the references reduced
to their names: they stand in the text one behind the other, and all between them is kept. -/
inductive Edited : (place : Nat) → List Reference → List Char → List Char → Prop where
  | kept {place : Nat} {text : List Char} : Edited place [] text text
  | reduced {place : Nat} {gap text result : List Char} {r : Reference} {refs : List Reference} :
      place + gap.length = r.start → Edited r.stop refs text result →
      Edited place (r :: refs) (gap ++ (r.written ++ text)) (gap ++ (r.name ++ result))

variable {refs : List Reference} {text result qualifier name : List Char} {place : Nat}

theorem Edited.cons (c : Char) (h : Edited (place + 1) refs text result) :
    Edited place refs (c :: text) (c :: result) := by
  cases h with
  | kept => exact .kept
  | @reduced _ gap text result r refs hs h =>
    show Edited place (r :: refs) ((c :: gap) ++ _) ((c :: gap) ++ _)
    exact .reduced (by simp only [List.length_cons]; omega) h

theorem Edited.append (front : List Char) (h : Edited (place + front.length) refs text result) :
    Edited place refs (front ++ text) (front ++ result) := by
  induction front generalizing place with
  | nil => exact h
  | cons c front ih =>
    refine (ih ?_).cons c
    rwa [Nat.add_assoc, Nat.add_comm 1]

theorem Edited.concat {refs' : List Reference} {text' result' : List Char}
    (h : Edited place refs text result)
    (h' : Edited (place + text.length) refs' text' result') :
    Edited place (refs ++ refs') (text ++ text') (result ++ result') := by
  induction h with
  | @kept place text => exact h'.append text
  | @reduced place gap text result r refs hs _ ih =>
    have hi := ih (by
      rw [Reference.stop_eq, ← hs]
      simpa [Nat.add_assoc] using h')
    simpa using Edited.reduced hs hi

/-- References that begin behind a front part leave it as it is. -/
theorem Edited.behind {front : List Char} (h : Edited place refs (front ++ text) result)
    (hr : ∀ r ∈ refs, place + front.length ≤ r.start) :
    ∃ result', result = front ++ result' ∧
      Edited (place + front.length) refs text result' := by
  generalize ht : front ++ text = whole at h
  cases h with
  | kept => exact ⟨text, ht.symm, .kept⟩
  | @reduced _ gap rest result r refs hs h =>
    have hle := hr r (List.mem_cons_self ..)
    obtain ⟨inner, rfl⟩ : front <+: gap :=
      List.prefix_of_prefix_length_le ⟨_, ht⟩ ⟨_, rfl⟩ (by omega)
    rw [List.append_assoc] at ht
    obtain rfl := List.append_cancel_left ht
    rw [List.length_append] at hs
    exact ⟨inner ++ (r.name ++ result), by simp, .reduced (by omega) h⟩

theorem Edited.bounds (h : Edited place refs text result) :
    ∀ r ∈ refs, place ≤ r.start ∧ r.stop ≤ place + text.length := by
  induction h with
  | kept => exact fun r hr => absurd hr (List.not_mem_nil)
  | @reduced place gap text result r refs hs _ ih =>
    have hl : (gap ++ (r.written ++ text)).length =
        gap.length + r.written.length + text.length := by
      simp [Nat.add_assoc]
    have hstop := r.stop_eq
    intro q hq
    rcases List.mem_cons.1 hq with rfl | hq
    · omega
    · have := ih q hq
      omega

theorem Edited.getLast?_eq (h : Edited place refs text result) (hr : ∀ r ∈ refs, r.name ≠ []) :
    result.getLast? = text.getLast? := by
  induction h with
  | kept => rfl
  | @reduced place gap text result r refs _ _ ih =>
    have hn : r.name ≠ [] := hr r (List.mem_cons_self ..)
    have hi := ih fun r hm => hr r (List.mem_cons_of_mem _ hm)
    simp only [List.getLast?_append, Reference.written, List.getLast?_cons, hi]
    cases hl : r.name.getLast? with
    | none => exact absurd (List.getLast?_eq_none_iff.1 hl) hn
    | some c => simp

-- ---------------------------------------------------------------------------
-- The rewriting
-- ---------------------------------------------------------------------------

def knownOf (known : List Char → Bool) (refs : List Reference) : List Reference :=
  refs.filter (known ·.name)

theorem bareFrom_drop (known : List Char → Bool) (front rest : List Marked) :
    bareFrom known front.length (front ++ rest) = bareFrom known 0 rest := by
  induction front with
  | nil => rfl
  | cons marked front ih =>
    rw [List.length_cons, List.cons_append, bareFrom]
    exact ih

theorem bareFrom_kept {known : List Char → Bool} {marked : Marked} {rest : List Marked}
    (h : ∀ found, begun? marked rest = some found → known found.2 = false) :
    bareFrom known 0 (marked :: rest) = marked.char :: bareFrom known 0 rest := by
  obtain ⟨c, code⟩ := marked
  rw [bareFrom]
  split
  · rfl
  · rename_i qualifier name hb
    have hn : known name = false := h (qualifier, name) hb
    simp [hn]

theorem bareFrom_reduced {known : List Char → Bool} {marked : Marked} {rest : List Marked}
    (h : begun? marked rest = some (qualifier, name)) (hk : known name = true) :
    bareFrom known 0 (marked :: rest) =
      name ++ bareFrom known (qualifier.length + name.length + 2) rest := by
  obtain ⟨c, code⟩ := marked
  rw [begun?] at h
  rw [bareFrom]
  simp only [h, hk, if_true]

/-- Rewriting a marked text edits it at its references to known names. -/
theorem edited_bareFrom (known : List Char → Bool) (marks : List Marked) (place : Nat) :
    Edited place (knownOf known (referencesFrom place marks)) (marks.map (·.char))
      (bareFrom known 0 marks) := by
  induction hn : marks.length using Nat.strongRecOn generalizing marks place with
  | _ n ih =>
    cases marks with
    | nil => exact .kept
    | cons marked rest =>
      have hrest := ih rest.length (by simp [← hn]) rest (place + 1) rfl
      rw [referencesFrom_cons, knownOf, List.filter_append]
      cases hb : begun? marked rest with
      | none =>
        rw [bareFrom_kept (by simp [hb])]
        exact hrest.cons marked.char
      | some found =>
        obtain ⟨qualifier, name⟩ := found
        cases hk : known name with
        | false =>
          rw [bareFrom_kept (by simp [hb, hk])]
          simpa [hk, knownOf] using hrest.cons marked.char
        | true =>
          obtain ⟨front, rear, rfl, hfront, hno, -⟩ := span_of_begun? hb
          obtain ⟨rfl, -⟩ := begun?_eq_some_iff.1 hb
          have hl : qualifier.length + name.length + 2 = front.length := by
            have := congrArg List.length hfront
            simp only [List.length_map, List.length_append, List.length_cons] at this
            omega
          have hstop : (Reference.mk place qualifier name).stop = place + 1 + front.length := by
            simp only [Reference.stop, ← hl]
            omega
          have hlt : rear.length < n := by
            simp only [← hn, List.length_cons, List.length_append]
            omega
          have hrear := ih rear.length hlt rear (place + 1 + front.length) rfl
          rw [← hstop] at hrear
          have hedit : Edited place _ ([] ++ (Reference.written ⟨place, qualifier, name⟩ ++ _))
              ([] ++ (name ++ _)) :=
            .reduced rfl hrear
          rw [hstop] at hedit
          rw [bareFrom_reduced hb hk, hl, bareFrom_drop, referencesFrom_append_of_no_bracket hno]
          simpa [hk, knownOf, Reference.written, hfront] using hedit

-- ---------------------------------------------------------------------------
-- References of the whole body
-- ---------------------------------------------------------------------------

theorem filter_referencesFrom_append (front rest : List Marked) (place : Nat) :
    (referencesFrom place (front ++ rest)).filter (place + front.length ≤ ·.start) =
      referencesFrom (place + front.length) rest := by
  induction front generalizing place with
  | nil =>
    refine List.filter_eq_self.2 ?_
    intro r hr
    obtain ⟨before, _, _, _, hs, _⟩ := mem_referencesFrom_iff.1 hr
    simp [hs]
  | cons marked front ih =>
    have hl : place + (marked :: front).length = place + 1 + front.length := by
      simp only [List.length_cons]
      omega
    rw [List.cons_append, referencesFrom_cons, List.filter_append, hl, ih,
      List.filter_eq_nil_iff.2, List.nil_append]
    intro r hr
    simp only [Option.mem_toList, Option.map_eq_some_iff] at hr
    obtain ⟨_, -, rfl⟩ := hr
    simp only [decide_eq_true_eq]
    omega

/-- The references of a text that begin at the place or behind it. -/
def referencesBehind (text : List Char) (start : Nat) : List Reference :=
  (Sql.references text).filter (start ≤ ·.start)

/-- A reader that begins at code finds the references that the whole text has from there on. -/
theorem referencesBehind_eq (hc : (mark .code text)[start]?.any (·.code) = true) :
    referencesBehind text start = referencesFrom start (mark .code (text.drop start)) := by
  have hstart : (text.take start).length = start := by
    rw [List.length_take, Nat.min_eq_left (Nat.le_of_lt (lt_length_of_code hc))]
  have hf := filter_referencesFrom_append
    (Cursor.code.marks (text.drop start).head? (text.take start)) (mark .code (text.drop start)) 0
  rw [Cursor.length_marks, hstart, Nat.zero_add] at hf
  rw [referencesBehind, Sql.references, mark_eq_take_append_drop hc, hf]

theorem edited_bareReferences (known : List Char → Bool)
    (hc : (mark .code text)[start]?.any (·.code) = true) :
    Edited 0 (knownOf known (referencesBehind text start)) text
      (bareReferences known start text) := by
  have he := edited_bareFrom known (mark .code (text.drop start)) start
  rw [map_char_mark, ← referencesBehind_eq hc] at he
  have hl : start ≤ text.length := Nat.le_of_lt (lt_length_of_code hc)
  have ha : Edited 0 _ (text.take start ++ _) (text.take start ++ _) :=
    Edited.append (text.take start) (by rwa [List.length_take, Nat.min_eq_left hl, Nat.zero_add])
  rwa [List.take_append_drop] at ha

-- ---------------------------------------------------------------------------
-- Inlining
-- ---------------------------------------------------------------------------

/-- The keyword behind which a view reads from others. -/
abbrev fromKeyword : List Char :=
  ['F', 'R', 'O', 'M']

/-- The first FROM of the body's code stands at the place. -/
def FirstFrom (view : View) (start : Nat) : Prop :=
  KeywordAt fromKeyword view.body.toList start ∧
    ∀ earlier < start, ¬KeywordAt fromKeyword view.body.toList earlier

theorem from?_eq_some_iff {view : View} : view.from? = some start ↔ view.FirstFrom start :=
  keywordPlace?_eq_some_iff (by decide) (by decide)

theorem from?_eq_none_iff {view : View} :
    view.from? = none ↔ ∀ place, ¬KeywordAt fromKeyword view.body.toList place :=
  keywordPlace?_eq_none_iff (by decide) (by decide)

theorem exists_firstFrom_of_keywordAt {view : View}
    (h : KeywordAt fromKeyword view.body.toList place) : ∃ start, view.FirstFrom start := by
  cases hstart : view.from? with
  | none => exact absurd h (from?_eq_none_iff.1 hstart place)
  | some start => exact ⟨start, from?_eq_some_iff.1 hstart⟩

theorem FirstFrom.code {view : View} (h : view.FirstFrom start) :
    (mark .code view.body.toList)[start]?.any (·.code) = true :=
  h.1.code 0 (by decide)

def combinedCtes (consumer : View) (dependencies : List View) : List Cte :=
  consumer.ctes ++ dependencies.flatMap asCtes

def names (ctes : List Cte) (name : List Char) : Bool :=
  ctes.any (·.name.toList == name)

theorem inline_of_firstFrom {consumer : View} (h : consumer.FirstFrom start)
    (dependencies : List View) :
    consumer.inline dependencies = .ok { consumer with
      ctes := combinedCtes consumer dependencies
      body := String.ofList (bareReferences (names (combinedCtes consumer dependencies)) start
        consumer.body.toList) } := by
  rw [inline, from?_eq_some_iff.2 h]
  rfl

theorem inline_of_no_from {consumer : View}
    (h : ∀ place, ¬KeywordAt fromKeyword consumer.body.toList place) (dependencies : List View) :
    consumer.inline dependencies = .error (.noFrom consumer.name) := by
  rw [inline, from?_eq_none_iff.2 h]

theorem exists_firstFrom_of_inline {consumer view : View} {dependencies : List View}
    (h : consumer.inline dependencies = .ok view) : ∃ start, consumer.FirstFrom start := by
  cases hstart : consumer.from? with
  | none =>
    rw [inline_of_no_from (from?_eq_none_iff.1 hstart)] at h
    cases h
  | some start => exact ⟨start, from?_eq_some_iff.1 hstart⟩

def ofQuery (name body : String) : View where
  name := name
  preamble := ""
  header := "CREATE VIEW " ++ name ++ " AS"
  ctes := []
  body := body

/-- A name that a CTE has, of the consumer or of a dependency, or a dependency itself. -/
def Known (consumer : View) (dependencies : List View) (name : List Char) : Prop :=
  (∃ cte ∈ consumer.ctes, cte.name.toList = name) ∨
    ∃ d ∈ dependencies, (∃ cte ∈ d.ctes, cte.name.toList = name) ∨ d.name.toList = name

theorem names_combinedCtes {consumer : View} {dependencies : List View} :
    names (combinedCtes consumer dependencies) name = true ↔ Known consumer dependencies name := by
  simp only [names, combinedCtes, asCtes, List.any_append, List.any_flatMap, Bool.or_eq_true,
    List.any_eq_true, beq_iff_eq, List.mem_singleton, exists_eq_left, Known]

/-- The references that inlining reduces when the first FROM stands at the place. -/
def reducedReferences (consumer : View) (dependencies : List View) (start : Nat) : List Reference :=
  knownOf (names (combinedCtes consumer dependencies))
    (referencesBehind consumer.body.toList start)

theorem mem_reducedReferences {consumer : View} {dependencies : List View} {r : Reference} :
    r ∈ reducedReferences consumer dependencies start ↔
      IsReference consumer.body.toList r ∧ start ≤ r.start ∧
        Known consumer dependencies r.name := by
  rw [reducedReferences, knownOf, referencesBehind, List.mem_filter, List.mem_filter,
    mem_references_iff, names_combinedCtes, decide_eq_true_eq, and_assoc]

theorem edited_inline {consumer view : View} {dependencies : List View}
    (hf : consumer.FirstFrom start) (h : consumer.inline dependencies = .ok view) :
    Edited 0 (reducedReferences consumer dependencies start) consumer.body.toList
        view.body.toList ∧
      view.ctes = combinedCtes consumer dependencies := by
  rw [inline_of_firstFrom hf] at h
  cases h
  refine ⟨?_, rfl⟩
  rw [String.toList_ofList]
  exact edited_bareReferences _ hf.code

/-- What inlining does, as a whole: it fails where there is no FROM to begin with, and else edits
the body at the references to known names and appends the CTEs of the dependencies. -/
theorem inline_exact_edit (consumer : View) (dependencies : List View) :
    ((∃ defect, consumer.inline dependencies = .error defect) ↔
      ∀ place, ¬KeywordAt fromKeyword consumer.body.toList place) ∧
    (∀ defect, consumer.inline dependencies = .error defect → defect = .noFrom consumer.name) ∧
    ∀ view, consumer.inline dependencies = .ok view → ∃ start refs,
      consumer.FirstFrom start ∧
      (∀ r, r ∈ refs ↔ IsReference consumer.body.toList r ∧ start ≤ r.start ∧
        Known consumer dependencies r.name) ∧
      Edited 0 refs consumer.body.toList view.body.toList ∧
      view.ctes = consumer.ctes ++
        dependencies.flatMap (fun d => d.ctes ++ [⟨d.name, asGroup d.body⟩]) ∧
      view.name = consumer.name ∧ view.preamble = consumer.preamble ∧
      view.header = consumer.header := by
  cases hstart : consumer.from? with
  | none =>
    have hno := from?_eq_none_iff.1 hstart
    have herror := inline_of_no_from hno dependencies
    refine ⟨⟨fun _ => hno, fun _ => ⟨_, herror⟩⟩, fun defect h => ?_, fun view h => ?_⟩
    · exact (Except.error.inj (herror.symm.trans h)).symm
    · cases herror.symm.trans h
  | some start =>
    have hfirst := from?_eq_some_iff.1 hstart
    have hok := inline_of_firstFrom hfirst dependencies
    refine ⟨⟨?_, fun hno => absurd hfirst.1 (hno start)⟩, fun defect h => ?_, fun view h => ?_⟩
    · rintro ⟨defect, h⟩
      cases hok.symm.trans h
    · cases hok.symm.trans h
    · obtain ⟨hedit, hctes⟩ := edited_inline hfirst h
      cases hok.symm.trans h
      exact ⟨start, _, hfirst, fun r => mem_reducedReferences, hedit, hctes, rfl, rfl, rfl⟩

end ViewRollout.View
