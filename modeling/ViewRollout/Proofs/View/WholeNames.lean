import ViewRollout.Proofs.Sql.Seam
import ViewRollout.Proofs.Text.Offset
import ViewRollout.Proofs.View.Edit

/-!
# Where reduced names stand

A bare name is one identifier as long as no other touches it. Its qualifier's
bracket kept it apart from what stands before it, and with the bracket that
is gone: `standsWhole_iff` says that a name stands whole just when neither
the text before it nor another reference right behind it joins it, and
`names_whole_iff` that the first FROM of the body stays where it is just when
no reference follows it directly.
-/

namespace ViewRollout.View

open Sql Text

variable {place start : Nat} {refs : List Reference} {text result before behind : List Char}
variable {r : Reference} {consumer view : View} {dependencies : List View}

-- ---------------------------------------------------------------------------
-- What stands around a name
-- ---------------------------------------------------------------------------

/-- Reducing the references of the text leaves the name of this one between the two texts. -/
inductive LeavesName (r : Reference) (before behind : List Char) :
    List Reference → List Char → Prop where
  | mk {refs refs' : List Reference} {front rest : List Char} :
      Edited 0 refs front before → front.length = r.start → Edited r.stop refs' rest behind →
      LeavesName r before behind (refs ++ r :: refs') (front ++ (r.written ++ rest))

/-- In the result of the edit the reference's name is an identifier of its own. -/
def StandsWhole (refs : List Reference) (text result : List Char) (r : Reference) : Prop :=
  ∃ before behind, LeavesName r before behind refs text ∧
    result = before ++ (r.name ++ behind) ∧
    before.getLast?.any isIdent = false ∧ behind.head?.any isIdent = false

/-- An identifier goes right up to the reference. -/
def Joined (text : List Char) (r : Reference) : Prop :=
  (text.take r.start).getLast?.any isIdent = true

instance : Decidable (Joined text r) :=
  inferInstanceAs (Decidable (_ = true))

theorem Edited.around (h : Edited place refs text result) (hr : r ∈ refs) :
    ∃ refs₁ refs₂ front rest before behind, refs = refs₁ ++ r :: refs₂ ∧
      text = front ++ (r.written ++ rest) ∧ result = before ++ (r.name ++ behind) ∧
      place + front.length = r.start ∧ Edited place refs₁ front before ∧
      Edited r.stop refs₂ rest behind := by
  induction h with
  | kept => simp at hr
  | @reduced place gap text result q refs hs h ih =>
    rcases List.mem_cons.1 hr with rfl | hr
    · exact ⟨[], refs, gap, text, gap, result, rfl, rfl, rfl, hs, .kept, h⟩
    · obtain ⟨refs₁, refs₂, front, rest, before, behind, rfl, rfl, rfl, hl, h₁, h₂⟩ := ih hr
      refine ⟨q :: refs₁, refs₂, gap ++ (q.written ++ front), rest, gap ++ (q.name ++ before),
        behind, by simp, by simp, by simp, ?_, .reduced hs h₁, h₂⟩
      rw [Reference.stop_eq] at hl
      simp only [List.length_append]
      omega

theorem exists_leavesName (h : Edited 0 refs text result) (hr : r ∈ refs) :
    ∃ before behind, LeavesName r before behind refs text ∧
      result = before ++ (r.name ++ behind) := by
  obtain ⟨_, _, front, _, before, behind, rfl, rfl, hresult, hl, h₁, h₂⟩ := h.around hr
  rw [Nat.zero_add] at hl
  exact ⟨before, behind, .mk h₁ hl h₂, hresult⟩

-- ---------------------------------------------------------------------------
-- The two sides of a name
-- ---------------------------------------------------------------------------

theorem LeavesName.joined_iff (h : LeavesName r before behind refs text)
    (hr : ∀ q ∈ refs, IsReference text q) :
    before.getLast?.any isIdent = true ↔ Joined text r := by
  obtain ⟨h₁, hl, -⟩ := h
  rw [h₁.getLast?_eq fun q hq => (hr q (List.mem_append_left _ hq)).qualifies.nonempty, Joined,
    ← hl, List.take_left]

/-- An edit puts an identifier first just by reducing a reference that stands there. -/
theorem Edited.any_head?_iff (h : Edited place refs text result)
    (hr : ∀ r ∈ refs, Qualifies r.qualifier r.name)
    (ht : text.head?.any isIdent = false) :
    result.head?.any isIdent = true ↔ ∃ r ∈ refs, r.start = place := by
  cases h with
  | kept => simp [ht]
  | @reduced _ gap text result r refs hs h =>
    cases gap with
    | nil =>
      obtain ⟨c, name, hname, hc⟩ := (hr r (List.mem_cons_self ..)).exists_cons
      have hstart : r.start = place := hs.symm
      simp [hname, hc, hstart]
    | cons c gap =>
      have hc : isIdent c = false := by simpa using ht
      simp only [List.cons_append, List.head?_cons, Option.any_some, hc, Bool.false_eq_true,
        false_iff]
      rintro ⟨q, hq, hstart⟩
      simp only [List.length_cons] at hs
      rcases List.mem_cons.1 hq with rfl | hq
      · omega
      · have := (h.bounds q hq).1
        have := r.stop_eq
        omega

theorem LeavesName.any_head?_iff (h : LeavesName r before behind refs text)
    (hr : ∀ q ∈ refs, IsReference text q) :
    behind.head?.any isIdent = true ↔ ∃ q ∈ refs, q.start = r.stop := by
  obtain ⟨h₁, hl, h₂⟩ := h
  rename_i refs₁ refs₂ front rest
  have hmem : r ∈ refs₁ ++ r :: refs₂ := by simp
  have hrest : rest.head?.any isIdent = false := by
    obtain ⟨front', back, ht, hl', hb⟩ := (hr r hmem).written
    obtain ⟨-, hrest⟩ := List.append_inj ht (hl.trans hl'.symm)
    rwa [List.append_cancel_left hrest]
  rw [h₂.any_head?_iff (fun q hq => (hr q (by simp [hq])).qualifies) hrest]
  constructor
  · exact fun ⟨q, hq, hs⟩ => ⟨q, by simp [hq], hs⟩
  · rintro ⟨q, hq, hs⟩
    have hstop := r.stop_eq
    rcases List.mem_append.1 hq with hq | hq
    · have := (h₁.bounds q hq).2
      have := q.stop_eq
      simp only [Reference.written, List.length_cons] at *
      omega
    · rcases List.mem_cons.1 hq with rfl | hq
      · simp only [Reference.written, List.length_cons] at hstop
        omega
      · exact ⟨q, hq, hs⟩

/-- A reduced name stands whole when neither the text before it nor a reference that follows it
directly goes on with it. -/
theorem standsWhole_iff (h : Edited 0 refs text result) (hr : ∀ q ∈ refs, IsReference text q)
    (hm : r ∈ refs) :
    StandsWhole refs text result r ↔ ¬Joined text r ∧ ∀ q ∈ refs, q.start ≠ r.stop := by
  have hsides {before behind : List Char} (hl : LeavesName r before behind refs text) :
      before.getLast?.any isIdent = false ∧ behind.head?.any isIdent = false ↔
        ¬Joined text r ∧ ∀ q ∈ refs, q.start ≠ r.stop := by
    rw [← hl.joined_iff hr, ← Bool.not_eq_true, ← Bool.not_eq_true, hl.any_head?_iff hr]
    simp
  constructor
  · rintro ⟨before, behind, hl, -, hwhole⟩
    exact (hsides hl).1 hwhole
  · intro hfree
    obtain ⟨before, behind, hl, hresult⟩ := exists_leavesName h hm
    exact ⟨before, behind, hl, hresult, (hsides hl).2 hfree⟩

-- ---------------------------------------------------------------------------
-- The first FROM
-- ---------------------------------------------------------------------------

/-- The byte at which the first FROM of the body's code stands, if there is one. -/
def fromOffset? (view : View) : Option Nat :=
  view.from?.map (byteOffset view.body.toList)

theorem isReference_of_mem (hm : r ∈ reducedReferences consumer dependencies start) :
    IsReference consumer.body.toList r :=
  (mem_reducedReferences.1 hm).1

/-- Inlining keeps the body up to the end of its first FROM, and what follows is edited. -/
theorem exists_behind_from (hf : consumer.FirstFrom start)
    (h : consumer.inline dependencies = .ok view) :
    ∃ front word rest rest', front.length = start ∧ word.length = fromKeyword.length ∧
      consumer.body.toList = front ++ (word ++ rest) ∧ view.body.toList = front ++ (word ++ rest') ∧
      rest.head?.any isIdent = false ∧
      Edited (start + fromKeyword.length) (reducedReferences consumer dependencies start) rest
        rest' := by
  obtain ⟨⟨front, word, rest, hbody, hl, hw, -, hend⟩, -⟩ := hf.1
  have hlw : word.length = fromKeyword.length := by simpa using congrArg List.length hw
  have hident := isIdent_of_map_toLower (show fromKeyword.all isIdent = true by decide) hw
  -- No reference begins inside of the FROM, since its bracket is no letter.
  have hbehind : ∀ r ∈ reducedReferences consumer dependencies start,
      0 + (front ++ word).length ≤ r.start := by
    intro r hr
    obtain ⟨href, hle, -⟩ := mem_reducedReferences.1 hr
    obtain ⟨before, back, ht, hstart, -⟩ := href.written
    obtain ⟨inner, rfl, -⟩ := word_before_bracket (ht.symm.trans hbody) hident (by omega)
    simp only [List.length_append] at hstart ⊢
    omega
  have hedit := (edited_inline hf h).1
  rw [hbody, ← List.append_assoc] at hedit
  obtain ⟨rest', hview, hedit⟩ := hedit.behind hbehind
  rw [Nat.zero_add, List.length_append, hl, hlw] at hedit
  exact ⟨front, word, rest, rest', hl, hlw, hbody, by rw [hview, List.append_assoc], hend, hedit⟩

/-- The first FROM stays where it is unless a reduced reference follows it directly. -/
theorem fromOffset?_eq_iff (hf : consumer.FirstFrom start)
    (h : consumer.inline dependencies = .ok view) :
    view.fromOffset? = consumer.fromOffset? ↔
      ∀ r ∈ reducedReferences consumer dependencies start,
        r.start ≠ start + fromKeyword.length := by
  obtain ⟨front, word, rest, rest', hl, hlw, hbody, hview, hend, hedit⟩ := exists_behind_from hf h
  have hfrom := from?_eq_some_iff.2 hf
  have hoffset : byteOffset view.body.toList start = byteOffset consumer.body.toList start := by
    rw [byteOffset_eq hview hl, byteOffset_eq hbody hl]
  have hplace : view.fromOffset? = consumer.fromOffset? ↔ view.from? = some start := by
    rw [fromOffset?, fromOffset?, hfrom, Option.map_some, ← hoffset, Option.map_eq_some_iff]
    constructor
    · rintro ⟨place, hsome, hsame⟩
      have hle := lt_length_of_code (from?_eq_some_iff.1 hsome).code
      have hlstart : start ≤ view.body.toList.length := by simp [hview, hl]
      rw [hsome, byteOffset_inj (Nat.le_of_lt hle) hlstart hsame]
    · exact fun hsome => ⟨start, hsome, rfl⟩
  have hchange : view.from? = some start ↔ rest'.head?.any isIdent = false := by
    rw [from?, hbody, ← hl] at hfrom
    rw [from?, hview, ← hl]
    exact keywordPlace?_change_iff (by decide) (by decide) hlw hfrom
  rw [hplace, hchange, ← Bool.not_eq_true,
    hedit.any_head?_iff (fun r hr => (isReference_of_mem hr).qualifies) hend]
  simp

-- ---------------------------------------------------------------------------
-- Inlining
-- ---------------------------------------------------------------------------

/-- Each name that inlining leaves is an identifier of its own just when its reference neither
follows an identifier directly nor is followed directly by another reduced reference, and the
first FROM keeps its offset just when none of the references follows it directly. -/
theorem names_whole_iff (hf : consumer.FirstFrom start)
    (h : consumer.inline dependencies = .ok view) :
    (∀ r ∈ reducedReferences consumer dependencies start,
      StandsWhole (reducedReferences consumer dependencies start) consumer.body.toList
          view.body.toList r ↔
        ¬Joined consumer.body.toList r ∧
          ∀ q ∈ reducedReferences consumer dependencies start, q.start ≠ r.stop) ∧
    (view.fromOffset? = consumer.fromOffset? ↔
      ∀ r ∈ reducedReferences consumer dependencies start,
        r.start ≠ start + fromKeyword.length) :=
  ⟨fun _ hr => standsWhole_iff (edited_inline hf h).1 (fun _ hq => isReference_of_mem hq) hr,
    fromOffset?_eq_iff hf h⟩

/-- Two references, one with a blank and one with a comma before it. -/
def apartReads : View :=
  ofQuery "top" "SELECT 1 FROM [w].low,[w].low"

def readView : View :=
  ofQuery "low" "SELECT 1 FROM t"

/-- A reference whose bracket is all that keeps it from the FROM. -/
def gluedRead : View :=
  ofQuery "top" "SELECT 1 FROM[w].low"

theorem names_whole_apartReads :
    apartReads.FirstFrom 9 ∧ ∃ view, apartReads.inline [readView] = .ok view ∧
      view.body = "SELECT 1 FROM low,low" ∧ view.fromOffset? = apartReads.fromOffset? ∧
      ∀ r ∈ reducedReferences apartReads [readView] 9,
        StandsWhole (reducedReferences apartReads [readView] 9) apartReads.body.toList
          view.body.toList r := by
  have hf : apartReads.FirstFrom 9 := from?_eq_some_iff.1 (by decide)
  have hrefs : reducedReferences apartReads [readView] 9 =
      [⟨14, ['w'], ['l', 'o', 'w']⟩, ⟨22, ['w'], ['l', 'o', 'w']⟩] := rfl
  obtain ⟨view, h, hbody⟩ : ∃ view, apartReads.inline [readView] = .ok view ∧
      view.body = "SELECT 1 FROM low,low" := ⟨_, rfl, by decide⟩
  obtain ⟨hwhole, hfrom⟩ := names_whole_iff hf h
  refine ⟨hf, view, h, hbody, hfrom.2 (by rw [hrefs]; decide), fun r hr => (hwhole r hr).2 ?_⟩
  rw [hrefs] at hr ⊢
  revert r
  decide

theorem names_gluedRead :
    gluedRead.FirstFrom 9 ∧ ∃ view, gluedRead.inline [readView] = .ok view ∧
      view.body = "SELECT 1 FROMlow" ∧ view.fromOffset? ≠ gluedRead.fromOffset? ∧
      ∃ r ∈ reducedReferences gluedRead [readView] 9,
        ¬StandsWhole (reducedReferences gluedRead [readView] 9) gluedRead.body.toList
          view.body.toList r := by
  have hf : gluedRead.FirstFrom 9 := from?_eq_some_iff.1 (by decide)
  obtain ⟨view, h, hbody⟩ : ∃ view, gluedRead.inline [readView] = .ok view ∧
      view.body = "SELECT 1 FROMlow" := ⟨_, rfl, by decide⟩
  have hmem : ⟨13, ['w'], ['l', 'o', 'w']⟩ ∈ reducedReferences gluedRead [readView] 9 := by
    decide
  have hjoined : Joined gluedRead.body.toList ⟨13, ['w'], ['l', 'o', 'w']⟩ := by decide
  refine ⟨hf, view, h, hbody, fun hsame => ?_, _, hmem, fun hwhole => ?_⟩
  · exact (fromOffset?_eq_iff hf h).1 hsame _ hmem rfl
  · have hedit := (edited_inline hf h).1
    exact ((standsWhole_iff hedit (fun _ hq => isReference_of_mem hq) hmem).1 hwhole).1 hjoined

end ViewRollout.View
