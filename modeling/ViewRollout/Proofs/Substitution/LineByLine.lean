import ViewRollout.Proofs.Substitution.OnePass
import ViewRollout.View.Basic

/-!
# One line after the other

`apply_line_by_line`: when no placeholder's name has a newline in it, no token
reaches over the end of a line, so the pieces of a text are those of its lines
(`Parted.append_line`) and each line can be substituted alone. A view is
rendered in lines, and a line that introduces a CTE has no tokens in it, so
substituting the rendered view is substituting what it is rendered from.
-/

namespace ViewRollout.Substitution

open Text
open View (Cte renderCtes)

variable {names : List (String × String)} {token schema text rest : List Char}
variable {pieces pieces' : List Piece}

/-- No name of a placeholder has a newline in it. -/
def OnOneLine (names : List (String × String)) : Prop :=
  ∀ pair ∈ names, '\n' ∉ pair.1.toList

def inBodies (s : Substitution) (ctes : List Cte) : List Cte :=
  ctes.map fun cte => { cte with body := s.apply cte.body }

/-- The view with all that is rendered of it substituted, apart from the names of its CTEs. -/
def inView (s : Substitution) (view : View) : View where
  name := view.name
  preamble := s.apply view.preamble
  header := s.apply view.header
  ctes := s.inBodies view.ctes
  body := s.apply view.body

-- ---------------------------------------------------------------------------
-- Pieces of lines
-- ---------------------------------------------------------------------------

theorem StandsFor.newline_not_mem (hnames : OnOneLine names) (h : StandsFor names token schema) :
    '\n' ∉ token := by
  obtain ⟨name, value, hv, rfl, -⟩ := h
  have hm : (name, value) ∈ names := List.mem_reverse.1 (Table.mem_of_lookup hv)
  simpa [toList_placeholderToken] using hnames _ hm

theorem prefix_append_line (h : '\n' ∉ token) (text rest : List Char) :
    token <+: text ++ '\n' :: rest ↔ token <+: text := by
  refine ⟨fun hp => ?_, fun hp => hp.trans (List.prefix_append ..)⟩
  rcases Nat.lt_or_ge text.length token.length with hlt | hge
  · -- A longer one takes in the newline.
    have hline : text ++ ['\n'] <+: text ++ '\n' :: rest := ⟨rest, by simp⟩
    have hover := List.prefix_of_prefix_length_le hline hp
      (by rw [List.length_append, List.length_singleton]; omega)
    exact absurd (hover.subset (by simp)) h
  · exact List.prefix_of_prefix_length_le hp (List.prefix_append ..) hge

theorem LongestToken.append_line (hnames : OnOneLine names)
    (h : LongestToken names token schema text) (rest : List Char) :
    LongestToken names token schema (text ++ '\n' :: rest) where
  stands := h.stands
  front := h.front.trans (List.prefix_append ..)
  longest other schema' ho hp :=
    h.longest other schema' ho ((prefix_append_line (ho.newline_not_mem hnames) ..).1 hp)

/-- The pieces of the first line, the newline, and the pieces of what follows. -/
theorem Parted.append_line (hnames : OnOneLine names) (h : Parted names text pieces)
    (h' : Parted names rest pieces') :
    Parted names (text ++ '\n' :: rest) (pieces ++ .char '\n' :: pieces') := by
  induction h with
  | nil =>
    refine .char (fun token schema hs hp => ?_) h'
    obtain ⟨inner, rfl⟩ := hs.exists_inner
    exact absurd (List.cons_prefix_cons.1 hp).1 (by decide)
  | @token token schema behind pieces hl _ ih =>
    have hl := hl.append_line hnames rest
    rw [List.append_assoc] at hl ⊢
    exact .token hl ih
  | @char c behind pieces hno _ ih =>
    refine .char (fun token schema hs hp => ?_) ih
    exact hno token schema hs ((prefix_append_line (hs.newline_not_mem hnames) ..).1 hp)

theorem apply_append_line (hnames : OnOneLine names) (s t : String) :
    (ofNames names).apply (s ++ "\n" ++ t) =
      (ofNames names).apply s ++ "\n" ++ (ofNames names).apply t := by
  obtain ⟨first, hfirst, hs⟩ := exists_parted names s.toList
  obtain ⟨second, hsecond, ht⟩ := exists_parted names t.toList
  have hline : (s ++ "\n" ++ t).toList = s.toList ++ '\n' :: t.toList := by simp
  rw [← String.toList_inj, toList_apply, hline, (hfirst.append_line hnames hsecond).replaceFrom_eq]
  simp only [String.toList_append, toList_apply, hs, ht, List.flatMap_append, List.flatMap_cons]
  rw [List.append_assoc]
  rfl

theorem apply_of_no_bracket {text : String} (h : '[' ∉ text.toList) :
    (ofNames names).apply text = text := by
  obtain ⟨pieces, hp, -⟩ := exists_parted names text.toList
  rw [← String.toList_inj, toList_apply, hp.replaceFrom_eq]
  refine hp.written_of_no_token fun token schema hs hi => h ?_
  obtain ⟨inner, rfl⟩ := hs.exists_inner
  exact hi.subset (List.mem_cons_self ..)

-- ---------------------------------------------------------------------------
-- Rendered views
-- ---------------------------------------------------------------------------

theorem bracket_not_mem_of_word {text : List Char} (h : ∀ c ∈ text, isWordChar c = true) :
    '[' ∉ text := by
  intro hm
  exact absurd (h _ hm) (by decide)

theorem apply_renderCtes (hnames : OnOneLine names) {introducer : String}
    (hi : '[' ∉ introducer.toList) {ctes : List Cte}
    (hctes : ∀ cte ∈ ctes, ∀ c ∈ cte.name.toList, isWordChar c = true) (body : String) :
    (ofNames names).apply (renderCtes introducer ctes ++ body) =
      renderCtes introducer ((ofNames names).inBodies ctes) ++ (ofNames names).apply body := by
  -- Only the first CTE has WITH before it.
  induction ctes generalizing introducer with
  | nil => simp [renderCtes, inBodies]
  | cons cte ctes ih =>
    obtain ⟨hcte, hctes⟩ := List.forall_mem_cons.1 hctes
    have hline : '[' ∉ (introducer ++ cte.name ++ " AS").toList := by
      simp [hi, bracket_not_mem_of_word hcte]
    have hnext := @ih "," (by decide) hctes
    have hlines : renderCtes introducer (cte :: ctes) ++ body =
        introducer ++ cte.name ++ " AS" ++ "\n" ++
          (cte.body ++ "\n" ++ (renderCtes "," ctes ++ body)) := by
      simp [renderCtes, ← String.toList_inj]
    rw [hlines, apply_append_line hnames, apply_append_line hnames, hnext,
      apply_of_no_bracket hline]
    simp [renderCtes, inBodies, ← String.toList_inj]

theorem apply_statement (hnames : OnOneLine names) (view : View)
    (hctes : ∀ cte ∈ view.ctes, ∀ c ∈ cte.name.toList, isWordChar c = true) :
    (ofNames names).apply
        (view.header ++ "\n" ++ renderCtes "WITH " view.ctes ++ view.body) =
      (ofNames names).apply view.header ++ "\n" ++
        renderCtes "WITH " ((ofNames names).inBodies view.ctes) ++
          (ofNames names).apply view.body := by
  rw [String.append_assoc, apply_append_line hnames, apply_renderCtes hnames (by decide) hctes]
  simp only [String.append_assoc]

theorem render_eq (view : View) :
    view.render = (if view.preamble = "" then "" else view.preamble ++ "\n") ++
      (view.header ++ "\n" ++ renderCtes "WITH " view.ctes ++ view.body) := by
  simp only [View.render, String.append_assoc]

theorem apply_render (hnames : OnOneLine names) (view : View)
    (hctes : ∀ cte ∈ view.ctes, ∀ c ∈ cte.name.toList, isWordChar c = true) :
    (ofNames names).apply view.render =
      (if view.preamble = "" then "" else (ofNames names).apply view.preamble ++ "\n") ++
        ((ofNames names).apply view.header ++ "\n" ++
          renderCtes "WITH " ((ofNames names).inBodies view.ctes) ++
            (ofNames names).apply view.body) := by
  rw [render_eq]
  split
  · rw [String.empty_append, String.empty_append, apply_statement hnames view hctes]
  · rw [apply_append_line hnames, apply_statement hnames view hctes]

/-- Where nothing is left of a preamble, its line is left empty. -/
theorem layout_eq_render_inView_iff {s : Substitution} (hempty : s.apply "" = "") (view : View) :
    (if view.preamble = "" then "" else s.apply view.preamble ++ "\n") ++
        (s.apply view.header ++ "\n" ++ renderCtes "WITH " (s.inBodies view.ctes) ++
          s.apply view.body) =
      (s.inView view).render ↔ view.preamble = "" ∨ s.apply view.preamble ≠ "" := by
  rw [render_eq]
  by_cases hpreamble : view.preamble = ""
  · simp [inView, hpreamble, hempty]
  by_cases hgone : s.apply view.preamble = ""
  · have hlonger (text : String) : "\n" ++ text ≠ text := by
      intro h
      have hlength := congrArg String.length h
      simp at hlength
    simp only [inView, hpreamble, hgone, if_true, if_false, String.empty_append, false_or, ne_eq,
      not_true_eq_false, iff_false]
    exact hlonger _
  · simp [inView, hpreamble, hgone]

/-- A substitution whose placeholders are written on one line goes line by line: texts on both sides
of a newline are substituted separately. So a rendered view is substituted by substituting its
preamble, its header, the body of each CTE and its body, each where it stands; the names of the
CTEs and what introduces them stay. That is the rendering of the substituted view, unless nothing
is left of its preamble: then it begins with an empty line. -/
theorem apply_line_by_line (names : List (String × String))
    (hnames : ∀ pair ∈ names, '\n' ∉ pair.1.toList) :
    let s := ofNames names
    (∀ text rest, s.apply (text ++ "\n" ++ rest) = s.apply text ++ "\n" ++ s.apply rest) ∧
    ∀ view : View, (∀ cte ∈ view.ctes, ∀ c ∈ cte.name.toList, isWordChar c = true) →
      s.apply view.render =
        (if view.preamble = "" then "" else s.apply view.preamble ++ "\n") ++
          (s.apply view.header ++ "\n" ++ renderCtes "WITH " (s.inBodies view.ctes) ++
            s.apply view.body) ∧
      (s.apply view.render = (s.inView view).render ↔
        view.preamble = "" ∨ s.apply view.preamble ≠ "") := by
  intro s
  refine ⟨apply_append_line hnames, fun view hctes => ?_⟩
  have happly := apply_render hnames view hctes
  refine ⟨happly, ?_⟩
  rw [happly]
  exact layout_eq_render_inView_iff (apply_of_no_bracket (by decide)) view

/-- A token inside another one, and a schema of more than one line. -/
def sampleNames : List (String × String) :=
  [("w", "dw\nx"), ("w]b", "[w]"), ("gone", "")]

def sampleView : View where
  name := "v"
  preamble := "-- [w]b]"
  header := "CREATE VIEW [w].v AS"
  ctes := [⟨"c", "(SELECT 1 FROM [w]\n.t)"⟩]
  body := "SELECT 1 FROM c [gone]"

theorem apply_line_by_line_sample :
    (∀ pair ∈ sampleNames, '\n' ∉ pair.1.toList) ∧
    (∀ cte ∈ sampleView.ctes, ∀ c ∈ cte.name.toList, isWordChar c = true) ∧
    (ofNames sampleNames).apply sampleView.render =
      "-- [w]\nCREATE VIEW dw\nx.v AS\nWITH c AS\n(SELECT 1 FROM dw\nx\n.t)\nSELECT 1 FROM c " := by
  have hnames : ∀ pair ∈ sampleNames, '\n' ∉ pair.1.toList := by decide
  have hwords : sampleView.ctes.all (·.name.toList.all isWordChar) = true := by decide
  have hctes : ∀ cte ∈ sampleView.ctes, ∀ c ∈ cte.name.toList, isWordChar c = true := by
    simpa only [List.all_eq_true] using hwords
  refine ⟨hnames, hctes, ((apply_line_by_line sampleNames hnames).2 sampleView hctes).1.trans ?_⟩
  decide +kernel

end ViewRollout.Substitution
