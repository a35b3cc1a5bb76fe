import ViewRollout.Proofs.Sql.CheckedReferences
import ViewRollout.Proofs.View.CheckedHeader
import ViewRollout.Proofs.View.Edit
import ViewRollout.View.Dependencies

/-!
# Inlining with checked accesses

The references behind the first FROM are found in a slice of the body and
moved back to the whole body by the offset of that slice; the rewriting copies
what stands between them, and the tail. All of it is cut at characters, since
the references stand in the body one behind the other (`Edited`).

`no_failed_access` puts together what holds of each function of the lexer, the
parser and the inliner: with every access checked it gives what it gives
without the checks.
-/

namespace ViewRollout.View

open Sql Text

variable {refs : List Reference} {text body front back result : List Char} {place offset : Nat}

-- ---------------------------------------------------------------------------
-- References of the whole body
-- ---------------------------------------------------------------------------

/-- The references of the body from its first FROM on; no list when there is no FROM. -/
def rewritableReferences? (body : List Char) : Option (Option (List Span)) := do
  match ← findKeyword? fromKeyword body with
  | none => return none
  | some start =>
    let behind ← textFrom? start body
    let spans ← qualifiedReferences? behind
    return some (spans.map (Span.behind start))

theorem rewritableReferences?_eq (body : List Char) :
    rewritableReferences? body = some ((keywordPlace? fromKeyword body).map fun start =>
      (referencesFrom start (mark .code (body.drop start))).map (Reference.span body)) := by
  rw [rewritableReferences?, findKeyword?_eq, Option.bind_eq_bind, Option.bind_some]
  cases hplace : keywordPlace? fromKeyword body with
  | none => rfl
  | some start =>
    have hle : start ≤ body.length := by
      have hkeyword := (keywordPlace?_eq_some_iff (by decide) (by decide)).1 hplace
      exact Nat.le_of_lt (lt_length_of_code (hkeyword.1.code 0 (by decide)))
    have hstart : (body.take start).length = start := by
      rw [List.length_take, Nat.min_eq_left hle]
    have hbehind : textFrom? (byteOffset body start) body = some (body.drop start) :=
      textFrom?_eq_some_iff.2 ⟨_, (List.take_append_drop start body).symm, rfl⟩
    have hspan (r : Reference) : (r.span (body.drop start)).behind (byteOffset body start) =
        (r.behind start).span body := by
      have h := span_behind (body.take start) (body.drop start) r
      rw [List.take_append_drop, hstart] at h
      exact h.symm
    have hrefs := referencesFrom_add start 0 (mark .code (body.drop start))
    rw [Nat.add_zero] at hrefs
    rw [Option.map_some]
    dsimp only
    rw [hbehind, Option.bind_eq_bind, Option.bind_some, qualifiedReferences?_eq,
      Option.bind_eq_bind, Option.bind_some, Option.map_some, hrefs, List.map_map, List.map_map]
    exact congrArg (some ∘ some) (List.map_congr_left fun r _ => hspan r)

-- ---------------------------------------------------------------------------
-- Rewriting
-- ---------------------------------------------------------------------------

/-- The body from what is copied on, with each of the references reduced to its name. -/
def rewriteFrom? (body : List Char) (copied : Nat) : List Span → Option (List Char)
  | [] => textFrom? copied body
  | span :: spans => do
    let gap ← slice? copied span.start body
    let rest ← rewriteFrom? body span.stop spans
    return gap ++ (span.name ++ rest)

/-- The body with each reference to a known name behind its first FROM reduced to the name. -/
def rewriteReferences? (known : List Char → Bool) (body : List Char) :
    Option (Option (List Char)) := do
  match ← rewritableReferences? body with
  | none => return none
  | some spans => (rewriteFrom? body 0 (spans.filter (known ·.name))).map some

theorem rewriteFrom?_of_edited (h : Edited place refs text result) (front : List Char)
    (hb : body = front ++ text) (hl : front.length = place) :
    rewriteFrom? body (byteSize front) (refs.map (Reference.span body)) = some result := by
  induction h generalizing front with
  | kept => exact textFrom?_eq_some_iff.2 ⟨_, hb, rfl⟩
  | @reduced place gap text result r refs hs _ ih =>
    have hgap : (front ++ gap).length = r.start := by rw [List.length_append, hl, hs]
    have hstop : (front ++ gap ++ r.written).length = r.stop := by
      rw [List.length_append, hgap, r.stop_eq]
    have hat : body = front ++ gap ++ r.written ++ text := by
      rw [hb, List.append_assoc, List.append_assoc]
    have hstart : byteOffset body r.start = byteSize front + byteSize gap := by
      rw [List.append_assoc _ _ text] at hat
      rw [byteOffset_eq hat hgap, byteSize_append]
    have hkept := slice?_eq_some_iff.2 ⟨_, _, hb, rfl, hstart.symm⟩
    have hrest := ih (front ++ gap ++ r.written) hat hstop
    rw [← byteOffset_eq hat hstop] at hrest
    simp only [List.map_cons, rewriteFrom?, Reference.span, Option.bind_eq_bind] at hrest ⊢
    rw [hkept, Option.bind_some, hrest]
    rfl

theorem rewriteReferences?_eq (known : List Char → Bool) (body : List Char) :
    rewriteReferences? known body =
      some ((keywordPlace? fromKeyword body).map fun start => bareReferences known start body) := by
  rw [rewriteReferences?, rewritableReferences?_eq, Option.bind_eq_bind, Option.bind_some]
  cases hplace : keywordPlace? fromKeyword body with
  | none => rfl
  | some start =>
    have hcode : (mark .code body)[start]?.any (·.code) = true := by
      have hkeyword := (keywordPlace?_eq_some_iff (by decide) (by decide)).1 hplace
      exact hkeyword.1.code 0 (by decide)
    have hedit := edited_bareReferences known hcode
    have hrewrite := rewriteFrom?_of_edited hedit [] rfl rfl
    rw [referencesBehind_eq hcode] at hrewrite
    rw [Option.map_some]
    dsimp only
    rw [List.filter_map]
    exact congrArg (Option.map some) hrewrite

-- ---------------------------------------------------------------------------
-- Views
-- ---------------------------------------------------------------------------

def refersTo? (view : View) (name : String) : Option Bool := do
  match ← rewritableReferences? view.body.toList with
  | none => return false
  | some spans => return spans.any (·.name == name.toList)

def inline? (consumer : View) (dependencies : List View) : Option (Except Defect View) := do
  let ctes := combinedCtes consumer dependencies
  match ← rewriteReferences? (names ctes) consumer.body.toList with
  | none => return .error (.noFrom consumer.name)
  | some body => return .ok { consumer with ctes := ctes, body := String.ofList body }

namespace Dependencies

def referredToIn? (consumer : View) : List View → Option (List View)
  | [] => some []
  | view :: views =>
    if view.name = consumer.name then referredToIn? consumer views else do
    let used ← consumer.refersTo? view.name
    let rest ← referredToIn? consumer views
    return if used then view :: rest else rest

def expand? (held : Dependencies) (consumer : View) : Option (Except Defect View) := do
  match ← referredToIn? consumer held.views with
  | [] => return .ok consumer
  | used => consumer.inline? used

def insert? (held : Dependencies) (view : View) : Option (Except Defect Dependencies) := do
  let expanded ← held.expand? view
  return expanded.map fun expanded => ⟨put expanded held.views⟩

end Dependencies

theorem refersTo?_eq (view : View) (name : String) :
    view.refersTo? name = some (view.refersTo name) := by
  rw [refersTo?, rewritableReferences?_eq, Option.bind_eq_bind, Option.bind_some, refersTo,
    View.references, View.from?]
  cases hplace : keywordPlace? fromKeyword view.body.toList with
  | none => rfl
  | some start =>
    have hrefs := referencesFrom_add start 0 (mark .code (view.body.toList.drop start))
    rw [Nat.add_zero] at hrefs
    have hany : ((referencesFrom start (mark .code (view.body.toList.drop start))).map
        (Reference.span view.body.toList)).any (·.name == name.toList) =
          (Sql.references (view.body.toList.drop start)).any (·.name == name.toList) := by
      rw [hrefs, List.map_map, List.any_map]
      rfl
    exact congrArg some hany

theorem inline?_eq (consumer : View) (dependencies : List View) :
    consumer.inline? dependencies = some (consumer.inline dependencies) := by
  rw [inline?, rewriteReferences?_eq, Option.bind_eq_bind, Option.bind_some, inline, View.from?]
  cases hplace : keywordPlace? fromKeyword consumer.body.toList with
  | none => rfl
  | some start =>
    rfl

namespace Dependencies

theorem referredToIn?_eq (consumer : View) (views : List View) :
    referredToIn? consumer views = some (views.filter fun view =>
      view.name != consumer.name && consumer.refersTo view.name) := by
  induction views with
  | nil => rfl
  | cons view views ih =>
    rw [referredToIn?, List.filter_cons]
    by_cases hname : view.name = consumer.name
    · rw [if_pos hname, ih, hname]
      simp
    · rw [if_neg hname, refersTo?_eq, ih, Option.bind_eq_bind, Option.bind_some]
      cases consumer.refersTo view.name <;> simp [hname]

theorem expand?_eq (held : Dependencies) (consumer : View) :
    held.expand? consumer = some (held.expand consumer) := by
  rw [expand?, referredToIn?_eq, Option.bind_eq_bind, Option.bind_some, expand, referredToBy]
  cases held.views.filter fun view =>
      view.name != consumer.name && consumer.refersTo view.name with
  | nil => rfl
  | cons view used => exact inline?_eq consumer (view :: used)

theorem insert?_eq (held : Dependencies) (view : View) :
    held.insert? view = some (held.insert view) := by
  rw [insert?, expand?_eq]
  rfl

end Dependencies

/-- No text makes the lexer, the parser or the inliner fail an access, and no offset makes the
scanner or the matching of parentheses fail one. -/
theorem no_failed_access (text keyword : String) (start : Nat) (view : View) (name : String)
    (dependencies : List View) (held : Dependencies) :
    scanFrom? .code (units text.toList) start = some (codeFrom (units text.toList) start) ∧
    matching? (units text.toList) start = some (closingParen (units text.toList) start) ∧
    findKeyword? keyword.toList text.toList =
      some ((keywordPlace? keyword.toList text.toList).map (byteOffset text.toList)) ∧
    codeMask? (units text.toList) = some (codeFlags (units text.toList)) ∧
    qualifiedReferences? text.toList =
      some ((Sql.references text.toList).map (Reference.span text.toList)) ∧
    (readCtes? text.toList).map (·.map fun (ctes, body) => (ctes, String.ofList body)) =
      some (readCtes text) ∧
    parse? text.toList = some (parse text) ∧
    view.refersTo? name = some (view.refersTo name) ∧
    view.inline? dependencies = some (view.inline dependencies) ∧
    held.expand? view = some (held.expand view) ∧
    held.insert? view = some (held.insert view) := by
  refine ⟨scanFrom?_eq _ start, matching?_eq _ start, findKeyword?_eq _ _, codeMask?_eq _,
    qualifiedReferences?_eq _, ?_, ?_, refersTo?_eq view name, inline?_eq view dependencies,
    held.expand?_eq view, held.insert?_eq view⟩
  · rw [readCtes?_eq, String.ofList_toList]
  · rw [parse?_eq, String.ofList_toList]

end ViewRollout.View
