import Mathlib.Data.List.Basic
import ViewRollout.Command.Script
import ViewRollout.Proofs.Sql.Balance
import ViewRollout.Proofs.Text.Trimming

/-!
# Where the statements of a script end

`script_ends_iff`: a script is read statement by statement, and no statement
reaches into the next one. Whether a statement's code is closed by a semicolon
is another matter: the semicolon is put behind the last character, whatever
that character belongs to. So the code is closed as it should be exactly when
the last character shows how the code ends, which it does not do behind a
comment.
-/

namespace ViewRollout.Command

open Sql Text

variable {statement text : List Char} {c : Char}

/-- The characters of a text that are plain code, blank ones aside. -/
def codeOf (text : List Char) : List Char :=
  ((mark .code text).filter fun m => m.code && !isBlank m.char).map (·.char)

/-- The code of a text with a semicolon behind it, unless it ends in one. -/
def closedCode (text : List Char) : List Char :=
  codeOf text ++ if (codeOf text).getLast? = some ';' then [] else [';']

def scriptEntry (statement : List Char) : List Char :=
  terminated statement ++ ['\n', '\n']

/-- The end of the text shows whether its code ends in a semicolon: the code does exactly when the
text does, or when the text ends in a line comment, where one more would be no code. -/
def ShowsEnd (text : List Char) : Prop :=
  (codeOf text).getLast? = some ';' ↔
    finish .code text = .lineComment ∨ text.getLast? = some ';'

instance (text : List Char) : Decidable (ShowsEnd text) :=
  inferInstanceAs (Decidable (_ ↔ _))

-- ---------------------------------------------------------------------------
-- Code behind a text
-- ---------------------------------------------------------------------------

theorem codeOf_append {a b : List Char} (h : b.head?.any pairsBack = false) :
    codeOf (a ++ b) = codeOf a ++
      (((Cursor.code.after b.head? a).marks none b).filter
        fun m => m.code && !isBlank m.char).map (·.char) := by
  rw [codeOf, mark_code, Cursor.marks_append, Option.or_none,
    (Cursor.code_of_not_pairsBack h a).1, List.filter_append, List.map_append]
  rfl

theorem codeOf_append_blank {gap : List Char} (hg : ∀ c ∈ gap, isBlank c = true)
    (text : List Char) : codeOf (text ++ gap) = codeOf text := by
  have hnone : ((Cursor.code.after gap.head? text).marks none gap).filter
      (fun m => m.code && !isBlank m.char) = [] := by
    refine List.filter_eq_nil_iff.2 fun m hm => ?_
    have hc : m.char ∈ gap := by
      rw [← Cursor.map_char_marks (Cursor.code.after gap.head? text) none gap]
      exact List.mem_map_of_mem hm
    simp [hg _ hc]
  rw [codeOf_append (head_not_pairsBack fun c hc => idle_of_isBlank (hg c hc)), hnone,
    List.map_nil, List.append_nil]

theorem after_eq_finish (h : (finish .code text).EndsInCode) {next : Option Char}
    (hn : next.any pairsBack = false) :
    Cursor.code.after next text = ⟨finish .code text, false⟩ := by
  have hr := (Cursor.code_of_not_pairsBack hn text).2
  have ht : (Cursor.code.after next text).taken = false :=
    Cursor.taken_after_of_endsInCode rfl hn (by rwa [hr])
  generalize Cursor.code.after next text = s at hr ht
  obtain ⟨region, taken⟩ := s
  cases hr
  cases ht
  rfl

theorem step_semicolon {region : Region} (h : region.EndsInCode) (next : Option Char) :
    region.step ';' next = (region, false) := by
  rcases h with rfl | rfl <;> simp [Region.step, isQuote, backtick]

theorem finish_semicolon (h : (finish .code text).EndsInCode) :
    finish .code (text ++ [';']) = finish .code text := by
  rw [finish_code, Cursor.after_append, Option.or_none, after_eq_finish h rfl]
  simp [Cursor.after, Cursor.move, step_semicolon h]

theorem codeOf_semicolon (h : (finish .code text).EndsInCode) :
    codeOf (text ++ [';']) = codeOf text ++ if finish .code text = .code then [';'] else [] := by
  have hb : isBlank ';' = false := by decide
  rw [codeOf_append (by rfl)]
  rw [show ([';'] : List Char).head? = some ';' from rfl, after_eq_finish h rfl]
  simp only [Cursor.marks, Cursor.isCode, step_semicolon h]
  rcases h with hf | hf <;> simp [hf, hb]

-- ---------------------------------------------------------------------------
-- One statement
-- ---------------------------------------------------------------------------

theorem finish_terminated (h : (finish .code (trimEnd statement)).EndsInCode) :
    finish .code (terminated statement) = finish .code (trimEnd statement) := by
  simp only [terminated]
  split
  · rfl
  · exact finish_semicolon h

/-- The two line breaks behind a statement bring a reader back to code. -/
theorem after_scriptEntry (h : (finish .code (trimEnd statement)).EndsInCode)
    (next : Option Char) : Cursor.code.after next (scriptEntry statement) = Cursor.code := by
  have hends : (finish .code (terminated statement)).EndsInCode := by rwa [finish_terminated h]
  have hafter : Cursor.code.after (some '\n') (terminated statement) =
      ⟨finish .code (terminated statement), false⟩ := after_eq_finish hends rfl
  have hback : Cursor.move ⟨finish .code (terminated statement), false⟩ '\n' (some '\n') =
      Cursor.code := Cursor.move_newline rfl hends _
  rw [scriptEntry, Cursor.after_append]
  simp only [List.head?_cons, List.head?_nil, Option.some_or, Option.none_or, hafter, Cursor.after,
    hback]
  exact Cursor.move_newline rfl (.inl rfl) next

/-- A semicolon is code only where the statement ends in code. -/
theorem codeOf_scriptEntry (h : (finish .code (trimEnd statement)).EndsInCode) :
    codeOf (scriptEntry statement) = codeOf (trimEnd statement) ++
      if finish .code (trimEnd statement) = .lineComment ∨
        (trimEnd statement).getLast? = some ';' then [] else [';'] := by
  have hgap : ∀ c ∈ ['\n', '\n'], isBlank c = true := List.all_eq_true.1 rfl
  rw [scriptEntry, codeOf_append_blank hgap, terminated]
  by_cases hlast : (trimEnd statement).getLast? = some ';'
  · simp [hlast]
  · rw [if_neg hlast, codeOf_semicolon h]
    rcases h with hf | hf <;> simp [hf, hlast]

theorem codeOf_scriptEntry_eq_iff (h : (finish .code (trimEnd statement)).EndsInCode) :
    codeOf (scriptEntry statement) = closedCode (trimEnd statement) ↔
      ShowsEnd (trimEnd statement) := by
  rw [codeOf_scriptEntry h, closedCode, List.append_cancel_left_eq, ShowsEnd]
  split <;> split <;> simp_all

-- ---------------------------------------------------------------------------
-- All statements
-- ---------------------------------------------------------------------------

theorem toList_script (statements : List String) :
    (script statements).toList = statements.flatMap fun s => scriptEntry s.toList := by
  rw [script, String.toList_ofList]
  rfl

theorem mark_scriptEntry_append (h : (finish .code (trimEnd statement)).EndsInCode)
    (rest : List Char) :
    mark .code (scriptEntry statement ++ rest) =
      mark .code (scriptEntry statement) ++ mark .code rest := by
  have hsplit : scriptEntry statement = (terminated statement ++ ['\n']) ++ ['\n'] := by
    simp [scriptEntry]
  have hmarks : Cursor.code.marks rest.head? (scriptEntry statement) =
      Cursor.code.marks none (scriptEntry statement) := by
    rw [hsplit, Cursor.marks_concat (by decide)]
  rw [mark_code, Cursor.marks_append, Option.or_none, after_scriptEntry h, hmarks, mark_code,
    mark_code]

theorem mark_script {statements : List String}
    (h : ∀ s ∈ statements, (finish .code (trimEnd s.toList)).EndsInCode) :
    mark .code (script statements).toList =
      statements.flatMap fun s => mark .code (scriptEntry s.toList) := by
  rw [toList_script]
  induction statements with
  | nil => rfl
  | cons s statements ih =>
    rw [List.flatMap_cons, List.flatMap_cons, mark_scriptEntry_append (h s (List.mem_cons_self ..)),
      ih fun s hs => h s (List.mem_cons_of_mem _ hs)]

theorem codeOf_script {statements : List String}
    (h : ∀ s ∈ statements, (finish .code (trimEnd s.toList)).EndsInCode) :
    codeOf (script statements).toList =
      statements.flatMap fun s => codeOf (scriptEntry s.toList) := by
  rw [codeOf, mark_script h, List.filter_flatMap, List.map_flatMap]
  rfl

/-- A script of statements that end in code or in a line comment is read statement by statement.
The code of each is closed by one semicolon, put there only where it is missing, exactly when the
statement's last character shows how its code ends. -/
theorem script_ends_iff (statements : List String)
    (h : ∀ s ∈ statements, (finish .code (trimEnd s.toList)).EndsInCode) :
    mark .code (script statements).toList =
        statements.flatMap (fun s => mark .code (scriptEntry s.toList)) ∧
      (∀ s ∈ statements, codeOf (scriptEntry s.toList) = closedCode (trimEnd s.toList) ↔
        ShowsEnd (trimEnd s.toList)) ∧
      ((∀ s ∈ statements, ShowsEnd (trimEnd s.toList)) →
        codeOf (script statements).toList =
          statements.flatMap fun s => closedCode (trimEnd s.toList)) := by
  refine ⟨mark_script h, fun s hs => codeOf_scriptEntry_eq_iff (h s hs), fun hshows => ?_⟩
  rw [codeOf_script h]
  exact List.flatMap_congr fun s hs => (codeOf_scriptEntry_eq_iff (h s hs)).2 (hshows s hs)

/-- Statements that end in a semicolon, in a comment behind one, and in a quoted one. -/
def sampleStatements : List String :=
  ["SELECT 1;\n", "SELECT 2; -- two", "SELECT ';'"]

theorem script_ends_sample :
    (∀ s ∈ sampleStatements, (finish .code (trimEnd s.toList)).EndsInCode ∧
      ShowsEnd (trimEnd s.toList)) ∧
    codeOf (script sampleStatements).toList = "SELECT1;SELECT2;SELECT;".toList := by
  have hends : ∀ s ∈ sampleStatements, (finish .code (trimEnd s.toList)).EndsInCode ∧
      ShowsEnd (trimEnd s.toList) := by decide
  refine ⟨hends, ?_⟩
  rw [(script_ends_iff sampleStatements fun s hs => (hends s hs).1).2.2 fun s hs => (hends s hs).2]
  decide

/-- The first statement runs on into the second one: its semicolon stands in the comment. -/
theorem script_commentAtEnd :
    (∀ s ∈ ["SELECT 1 -- one", "SELECT 2"], codeOf (trimEnd s.toList) ≠ [] ∧
      (finish .code (trimEnd s.toList)).EndsInCode) ∧
    codeOf (script ["SELECT 1 -- one", "SELECT 2"]).toList = "SELECT1SELECT2;".toList ∧
      "SELECT1SELECT2;".toList ≠
        ["SELECT 1 -- one", "SELECT 2"].flatMap fun s => closedCode (trimEnd s.toList) := by
  decide

end ViewRollout.Command
