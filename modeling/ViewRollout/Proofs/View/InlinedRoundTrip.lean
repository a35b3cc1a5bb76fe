import ViewRollout.Proofs.View.Introducing
import ViewRollout.Proofs.View.RoundTrip
import ViewRollout.Proofs.View.WrappedBody

/-!
# Reading an inlined view that was written down

`parse_render_inline`: when a consumer and its dependencies are well formed
and the bodies of the dependencies are balanced, the inlined view is sound, so
it is read back as it was. Each body becomes a group that is closed at its
end, whatever comment it ends in; the edits of the consumer's body change
neither of its ends and introduce no CTE.
-/

namespace ViewRollout.View

open Sql Text

/-- A view whose parts can be told apart however many CTEs come before its body. -/
structure WellFormed (view : View) : Prop where
  header : ∃ ends, IsHeader view.name.toList ends view.header.toList ∧
    (ends = false → view.ctes ≠ [] ∨ as? view.body.toList = none)
  ctes : ∀ cte ∈ view.ctes, cte.Sound
  trimmed : trim view.body.toList = view.body.toList
  body : ∀ introducer : Introducer, introducer.read? (dropComments false view.body.toList) = none

theorem WellFormed.isWord {view : View} (h : view.WellFormed) : IsWord view.name.toList := by
  obtain ⟨ends, hh, -⟩ := h.header
  exact hh.isWord

-- ---------------------------------------------------------------------------
-- Dependencies as CTEs
-- ---------------------------------------------------------------------------

theorem exists_idle_queryOf (body : List Char) :
    ∃ tail, body = queryOf body ++ tail ∧ ∀ c ∈ tail, Idle c := by
  obtain ⟨gap, semicolons, gap', hbody, hgap, hsemi, hgap'⟩ := exists_behind_queryOf body
  refine ⟨_, hbody, fun c hc => ?_⟩
  rcases List.mem_append.1 hc with hc | hc
  · exact idle_of_isBlank (hgap c hc)
  · rcases List.mem_append.1 hc with hc | hc
    · rw [hsemi c hc]
      unfold Idle
      decide
    · exact idle_of_isBlank (hgap' c hc)

/-- A body that may be wrapped in parentheses. -/
structure Wrappable (body : List Char) : Prop where
  balanced : Balanced (mark .code body)
  ends : (finish .code body).EndsInCode

theorem sound_asGroup {name body : String} (hn : IsWord name.toList) (hb : Wrappable body.toList) :
    Cte.Sound ⟨name, asGroup body⟩ := by
  obtain ⟨tail, hq, hi⟩ := exists_idle_queryOf body.toList
  have hg := toList_asGroup body
  have hc : ClosesAtEnd ('\n' :: (queryOf body.toList ++ ['\n', ')'])) :=
    closesAtEnd_of_balanced hi (hq ▸ hb.balanced) (hq ▸ hb.ends)
  refine ⟨hn, ?_, ?_⟩
  · show (asGroup body).toList.head? = some '('
    rw [hg]
    rfl
  · show closingParen (asGroup body).toList 1 = .ok ((asGroup body).toList.length - 1)
    rw [hg]
    exact closingParen_eq_ok_iff.2 hc

theorem sound_combinedCtes {consumer : View} {dependencies : List View} (hc : consumer.WellFormed)
    (hd : ∀ d ∈ dependencies, d.WellFormed) (hb : ∀ d ∈ dependencies, Wrappable d.body.toList) :
    ∀ cte ∈ combinedCtes consumer dependencies, cte.Sound := by
  intro cte hm
  rcases List.mem_append.1 hm with hm | hm
  · exact hc.ctes cte hm
  · obtain ⟨d, hd', hm⟩ := List.mem_flatMap.1 hm
    rcases List.mem_append.1 hm with hm | hm
    · exact (hd d hd').ctes cte hm
    · obtain rfl := List.mem_singleton.1 hm
      exact sound_asGroup (hd d hd').isWord (hb d hd')

-- ---------------------------------------------------------------------------
-- The edited body
-- ---------------------------------------------------------------------------

/-- Up to the first letter of its first FROM the body stays as it is, and so does its end. -/
theorem bareReferences_of_firstFrom {view : View} (h : view.FirstFrom start)
    (known : List Char → Bool) :
    ∃ front f back back', IsF f ∧ view.body.toList = front ++ f :: back ∧
      Cursor.code.after (some f) front = Cursor.code ∧
      bareReferences known start view.body.toList = front ++ f :: back' ∧
      (front ++ f :: back').getLast? = (front ++ f :: back).getLast? := by
  have hcode := h.code
  have hedit := edited_bareReferences known hcode
  obtain ⟨⟨front, word, back, hbody, rfl, hw, -, -⟩, -⟩ := h.1
  cases word with
  | nil => cases hw
  | cons f word =>
    have hf : IsF f := isF_of_toLower (List.cons.inj hw).1
    have hnames : ∀ r ∈ knownOf known (referencesBehind view.body.toList front.length),
        r.name ≠ [] := by
      intro r hr
      have hr := (List.mem_filter.1 (List.mem_filter.1 hr).1).1
      exact (mem_references_iff.1 hr).qualifies.nonempty
    have hlast := hedit.getLast?_eq hnames
    have hafter : Cursor.code.after (some f) front = Cursor.code := by
      rw [hbody, mark_code] at hcode
      exact Cursor.after_eq_code (s := Cursor.code) hcode
    obtain ⟨back', hback⟩ : ∃ back', bareReferences known front.length view.body.toList =
        front ++ f :: back' := by
      have hno : f ≠ '[' := by rcases hf with rfl | rfl <;> decide
      rw [hbody, bareReferences, List.take_left, List.drop_left, List.cons_append, mark_code,
        Cursor.marks, bareFrom_kept]
      · exact ⟨_, rfl⟩
      · intro found hb
        exact absurd (congrArg (·.char) (begun?_eq_some_iff.1 hb).1) hno
    refine ⟨front, f, word ++ back, back', hf, hbody, hafter, hback, ?_⟩
    rwa [hback, hbody] at hlast

theorem bareReferences_of_no_ctes {view : View} (h : view.FirstFrom start) :
    bareReferences (names []) start view.body.toList = view.body.toList := by
  have hedit := edited_bareReferences (names []) h.code
  have hnone : knownOf (names []) (referencesBehind view.body.toList start) = [] :=
    List.filter_eq_nil_iff.2 fun r _ => by simp [names]
  rw [hnone] at hedit
  generalize bareReferences (names []) start view.body.toList = result at hedit ⊢
  cases hedit
  rfl

theorem sound_inline {consumer view : View} {dependencies : List View} (hc : consumer.WellFormed)
    (hd : ∀ d ∈ dependencies, d.WellFormed) (hb : ∀ d ∈ dependencies, Wrappable d.body.toList)
    (hf : consumer.FirstFrom start) (h : consumer.inline dependencies = .ok view) :
    view.Sound := by
  rw [inline_of_firstFrom hf] at h
  cases h
  obtain ⟨front, f, back, back', hfirst, hbody, hafter, hedit, hlast⟩ :=
    bareReferences_of_firstFrom hf (names (combinedCtes consumer dependencies))
  constructor
  · obtain ⟨ends, hh, ha⟩ := hc.header
    refine ⟨ends, hh, fun he => ?_⟩
    by_cases hn : combinedCtes consumer dependencies = []
    · right
      have hnil : consumer.ctes = [] := (List.append_eq_nil_iff.1 hn).1
      show as? (String.ofList _).toList = none
      rw [hn, bareReferences_of_no_ctes hf, String.toList_ofList]
      exact (ha he).resolve_left (not_not_intro hnil)
    · exact .inl hn
  · exact sound_combinedCtes hc hd hb
  · show trim (String.ofList _).toList = (String.ofList _).toList
    have ht := trim_eq_self_iff.1 hc.trimmed
    rw [hbody] at ht
    rw [String.toList_ofList, hedit]
    refine trim_eq_self_iff.2 ⟨?_, hlast ▸ ht.2⟩
    cases front with
    | nil => exact ht.1
    | cons c front => exact ht.1
  · show Introducer.read? _ (dropComments false (String.ofList _).toList) = none
    have hn := hc.body (Introducer.first.behind (combinedCtes consumer dependencies))
    rw [hbody] at hn
    rw [String.toList_ofList, hedit]
    exact read?_eq_none_append_cons hfirst hafter hn back'

/-- Well-formed views with balanced dependencies can be inlined, and what comes out is read back as
it was, provided that its preamble stands apart. -/
theorem parse_render_inline {consumer : View} {dependencies : List View} (hc : consumer.WellFormed)
    (hd : ∀ d ∈ dependencies, d.WellFormed) (hb : ∀ d ∈ dependencies, Wrappable d.body.toList)
    (hf : ∃ place, KeywordAt fromKeyword consumer.body.toList place) :
    ∃ view, consumer.inline dependencies = .ok view ∧
      (view.PreambleApart → parse view.render = .ok view) := by
  cases hstart : consumer.from? with
  | none =>
    obtain ⟨place, hp⟩ := hf
    exact absurd hp (from?_eq_none_iff.1 hstart place)
  | some start =>
    have hfirst := from?_eq_some_iff.1 hstart
    have hok := inline_of_firstFrom hfirst dependencies
    refine ⟨_, hok, fun hp => ?_⟩
    have hs := sound_inline hc hd hb hfirst hok
    exact parse_of_parts (findHeader?_render hs hp) (trim_front hp) (readCtes_back hs)

/-- A consumer with a CTE of its own and a reference inside a string. -/
def sampleConsumer : View where
  name := "top"
  preamble := "-- top"
  header := "CREATE VIEW top AS"
  ctes := [⟨"own", "(SELECT 1)"⟩]
  body := "SELECT '[w].low', * FROM [w].low, [v].own"

/-- Dependencies that end in a comment and in semicolons. -/
def sampleDependencies : List View :=
  [{ name := "low", preamble := "", header := "CREATE VIEW `low`", ctes := []
     body := "SELECT (a) FROM t -- )" },
   { name := "mid", preamble := "", header := "CREATE VIEW w.mid AS", ctes := [⟨"b", "(\n2)"⟩]
     body := "SELECT * FROM b ;;" }]

theorem parse_render_inline_sample :
    sampleConsumer.WellFormed ∧
      (∀ d ∈ sampleDependencies, d.WellFormed ∧ Wrappable d.body.toList) ∧
      ∃ view, sampleConsumer.inline sampleDependencies = .ok view ∧
        view.PreambleApart ∧ parse view.render = .ok view := by
  have hheader {name qualified as : List Char} {ends : Bool} (hq : IsQualified name qualified)
      (hw : IsWord name) (ha : IsAs ends as) :
      IsHeader name ends (['C', 'R', 'E', 'A', 'T', 'E'] ++ ([' '] ++ ([] ++
        (['V', 'I', 'E', 'W'] ++ ([' '] ++ (qualified ++ as)))))) :=
    .mk rfl (by decide) .absent rfl (by decide) hq hw ha
  have has : IsAs true ([' '] ++ ['A', 'S']) := .present (by decide) rfl
  have hc : sampleConsumer.WellFormed := by
    refine ⟨⟨true, hheader (.bare .bare) (by decide) has, nofun⟩, ?_, by decide, ?_⟩
    · intro cte hm
      obtain rfl := List.mem_singleton.1 hm
      exact ⟨by decide, by decide, rfl⟩
    · intro introducer
      cases introducer <;> decide
  have hd : ∀ d ∈ sampleDependencies, d.WellFormed ∧ Wrappable d.body.toList := by
    intro d hm
    rcases List.mem_cons.1 hm with rfl | hm
    · refine ⟨⟨⟨false, hheader (.bare .ticked) (by decide) .absent, ?_⟩, nofun,
        by decide, ?_⟩, by decide, by decide⟩
      · exact fun _ => .inr (by decide)
      · intro introducer
        cases introducer <;> decide
    · obtain rfl := List.mem_singleton.1 hm
      have hq : IsQualified ['m', 'i', 'd'] (['w'] ++ '.' :: ['m', 'i', 'd']) :=
        .qualified (.word (by decide)) .bare
      refine ⟨⟨⟨true, hheader hq (by decide) has, nofun⟩, ?_, by decide, ?_⟩,
        by decide, by decide⟩
      · intro cte hm
        obtain rfl := List.mem_singleton.1 hm
        exact ⟨by decide, by decide, rfl⟩
      · intro introducer
        cases introducer <;> decide
  have hf : sampleConsumer.from? = some 20 := by decide
  obtain ⟨view, hok, hparse⟩ := parse_render_inline hc (fun d hm => (hd d hm).1)
    (fun d hm => (hd d hm).2) ⟨20, (from?_eq_some_iff.1 hf).1⟩
  have hp : view.PreambleApart := by
    cases hok
    refine ⟨by decide, .inr ⟨by decide, ?_⟩⟩
    decide +kernel
  exact ⟨hc, hd, view, hok, hp, hparse hp⟩

end ViewRollout.View
