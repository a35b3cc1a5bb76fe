import ViewRollout.Proofs.Sql.ReferenceSpans
import ViewRollout.Proofs.Sql.Restart
import ViewRollout.Proofs.View.CheckedInlining

/-!
# References read from the first FROM on

The references of a view are looked for in what is left of its body from the
first FROM on. `scan_restarts`: a scan that is begun anew in code goes on as
the scan of the whole text does, so what is found there are the references
that the whole body has behind its FROM.
-/

namespace ViewRollout.View

open Sql Text

variable {text : List Char} {view : View} {place start : Nat}

theorem byteOffset_le_iff (hs : start ≤ text.length) (hp : place ≤ text.length) :
    byteOffset text start ≤ byteOffset text place ↔ start ≤ place := by
  refine ⟨fun h => Nat.le_of_not_lt fun hlt => ?_, byteOffset_le⟩
  have heq := Nat.le_antisymm h (byteOffset_le (Nat.le_of_lt hlt))
  exact Nat.ne_of_gt hlt (byteOffset_inj hs hp heq)

/-- The references behind a place are those whose offsets are behind its own. -/
theorem filter_spans (hs : start ≤ text.length) :
    ((Sql.references text).map (Reference.span text)).filter (byteOffset text start ≤ ·.start) =
      (referencesBehind text start).map (Reference.span text) := by
  rw [referencesBehind, List.filter_map]
  congr 1
  refine List.filter_congr fun r hr => ?_
  have hlt := lt_length_of_code (mem_references_iff.1 hr).code
  exact decide_eq_decide.2 (byteOffset_le_iff hs (Nat.le_of_lt hlt))

theorem FirstFrom.references_eq (h : view.FirstFrom start) :
    view.references.map (Reference.behind start) =
      referencesBehind view.body.toList start := by
  have hbehind := referencesFrom_add start 0 (mark .code (view.body.toList.drop start))
  rw [referencesBehind_eq h.code, View.references, from?_eq_some_iff.2 h]
  exact hbehind.symm

theorem rewritableReferences?_body (view : View) :
    rewritableReferences? view.body.toList = some (view.from?.map fun start =>
      ((Sql.references view.body.toList).map (Reference.span view.body.toList)).filter
        (byteOffset view.body.toList start ≤ ·.start)) := by
  rw [rewritableReferences?_eq]
  refine congrArg some (Option.map_congr fun start hstart => ?_)
  have hcode := (from?_eq_some_iff.1 hstart).code
  rw [filter_spans (Nat.le_of_lt (lt_length_of_code hcode)), referencesBehind_eq hcode]

/-- A scan can be begun anew at each character that the scan of the whole text yields, and right
behind it: begun there in the text, or at the front of what is left of the text, it yields just what
the whole scan yields from there on, and it ends in the same region. So the references that a view
has in what is left of its body from the first FROM on are those of the whole body that begin at
that FROM or behind it, by place and by offset. The bytes of a text are such a text too, when each
is read as the character of its code. -/
theorem scan_restarts (text : List Char) (view : View) :
    (∀ start, scan text .code start = ⟨codeFrom text start, finish .code (text.drop start)⟩) ∧
    (∀ place, Restarts text place →
      scan text .code place = ⟨(codeFrom text 0).filter (place ≤ ·.1), finish .code text⟩ ∧
      (scan (text.drop place) .code 0).behind place =
        ⟨(codeFrom text 0).filter (place ≤ ·.1), finish .code text⟩) ∧
    rewritableReferences? view.body.toList = some (view.from?.map fun start =>
      ((Sql.references view.body.toList).map (Reference.span view.body.toList)).filter
        (byteOffset view.body.toList start ≤ ·.start)) ∧
    ∀ start, view.from? = some start →
      view.references.map (Reference.behind start) =
        (Sql.references view.body.toList).filter (start ≤ ·.start) := by
  refine ⟨scan_eq text, fun place h => ?_, rewritableReferences?_body view, fun start h => ?_⟩
  · have hscan := h.comesTo.scan_eq
    exact ⟨hscan, (scan_drop text place).trans hscan⟩
  · exact (from?_eq_some_iff.1 h).references_eq

/-- A comment that begins right behind code, and a quoted segment that is never closed. -/
def brokenText : List Char :=
  "'--' a/* ' */b'x".toList

theorem scan_restarts_behindCode :
    Restarts brokenText 6 ∧ scan brokenText .code 6 = ⟨[(13, 'b')], .quoted '\''⟩ ∧
      (ofQuery "v" "SELECT [a].b FROM [w].t").from? = some 13 ∧
      (ofQuery "v" "SELECT [a].b FROM [w].t").references.map (Reference.behind 13) =
        [⟨18, ['w'], ['t']⟩] := by
  obtain ⟨-, hscan, -, hrefs⟩ := scan_restarts brokenText (ofQuery "v" "SELECT [a].b FROM [w].t")
  have hrestarts : Restarts brokenText 6 := ⟨(5, 'a'), by decide, .inr rfl⟩
  have hfrom : (ofQuery "v" "SELECT [a].b FROM [w].t").from? = some 13 := by decide
  exact ⟨hrestarts, (hscan 6 hrestarts).1.trans (by decide), hfrom,
    (hrefs 13 hfrom).trans (by decide)⟩

end ViewRollout.View
