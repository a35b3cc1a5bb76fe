import ViewRollout.Proofs.Sql.Balance
import ViewRollout.Proofs.View.ChainReading
import ViewRollout.Proofs.View.HeaderLine
import ViewRollout.Proofs.View.HeaderSearch
import ViewRollout.Proofs.View.RoundTrip

/-!
# Writing down what was parsed

`parse_render_parsed_iff`: when a view that came from a text is read back as
it was. Its CTEs and its body always are. The header is if what follows it on
the next line does not go on with it, and if no other header of the written
text takes its place: one that begins in code before it, or one that it begins
inside of.
-/

namespace ViewRollout.View

open Sql Text

variable {text front behind rest : List Char} {links : List Link} {view : View} {header : Header}

-- ---------------------------------------------------------------------------
-- The chain and the body
-- ---------------------------------------------------------------------------

theorem IsIntroducer.isWord {introducer : Introducer} {name lead : List Char}
    (h : IsIntroducer name rest introducer lead) : IsWord name := by
  cases h with
  | first _ _ hn => cases hn; assumption
  | more _ hn => cases hn; assumption

theorem Link.Stands.sound {introducer : Introducer} {link : Link}
    (h : link.Stands text introducer front behind)
    (ht : text = front ++ (link.written ++ behind)) : link.cte.Sound := by
  obtain ⟨inner, hinner, hgroup⟩ := h.exists_group ht
  have hclose := closesAtEnd_of_group? hgroup
  have hbody : link.cte.body.toList = '(' :: inner := by rw [Link.cte, hinner, String.toList_ofList]
  refine ⟨?_, ?_, ?_⟩
  · rw [Link.cte, String.toList_ofList]
    exact h.introduced.isWord
  · rw [hbody]
    rfl
  · rw [hbody]
    exact closingParen_eq_ok_iff.2 hclose

theorem IsChain.sound {introducer : Introducer} (h : IsChain text introducer front links rest)
    (ht : text = front ++ (writtenLinks links ++ rest)) : ∀ link ∈ links, link.cte.Sound := by
  induction h with
  | nil => simp
  | @cons links rest introducer front link hs _ ih =>
    rw [writtenLinks_cons, List.append_assoc] at ht
    intro other hm
    rcases List.mem_cons.1 hm with rfl | hm
    · exact hs.sound ht
    · exact ih (by rw [ht, List.append_assoc]) other hm

/-- What is read as a chain and a body can be told apart when it is written down. -/
theorem sound_of_readCtes {text body : String} {ctes : List Cte}
    (h : readCtes text = .ok (ctes, body)) (ht : trim text.toList = text.toList) :
    (∀ cte ∈ ctes, cte.Sound) ∧ trim body.toList = body.toList ∧
      (Introducer.first.behind ctes).read? (dropComments false body.toList) = none := by
  obtain ⟨links, rest, htext, hc, hn, rfl, hb⟩ := readCtes_eq_ok_iff.1 h
  refine ⟨?_, ?_, ?_⟩
  · intro cte hm
    obtain ⟨link, hl, rfl⟩ := List.mem_map.1 hm
    exact hc.sound htext link hl
  · rw [hb]
    rw [htext] at ht
    exact trim_trimStart_of_append ht
  · rw [hb, dropComments_trimStart]
    exact read?_eq_none_iff.2 hn

-- ---------------------------------------------------------------------------
-- What was parsed
-- ---------------------------------------------------------------------------

/-- The text is the preamble's part, the header and what follows it; `start` and `lead` are where
the header begins and what it is. -/
structure ParsedAt (text : List Char) (view : View) (start : Nat) (lead rest : List Char) :
    Prop where
  first : FirstHeader text start
  read : header? (text.drop start) = some (view.name.toList, rest)
  cut : text.drop start = lead ++ rest
  header : view.header.toList = lead
  preamble : view.preamble.toList = trim (text.take start)
  ctes : readCtes (String.ofList (trim rest)) = .ok (view.ctes, view.body)

theorem parse_eq_ok_iff {text : String} :
    parse text = .ok view ↔ ∃ start lead rest, ParsedAt text.toList view start lead rest := by
  constructor
  · intro h
    rw [parse_eq] at h
    cases hf : findHeader? text.toList with
    | none => rw [hf] at h; cases h
    | some header =>
      rw [hf] at h
      obtain ⟨hfirst, hread⟩ := findHeader?_eq_some_iff.1 hf
      obtain ⟨lead, hcut, -⟩ := exists_matches hread
      simp only [viewBehind] at h
      cases hc : readCtes (String.ofList (trim header.rest)) with
      | error => rw [hc] at h; cases h
      | ok found =>
        rw [hc] at h
        cases h
        refine ⟨header.start, lead, header.rest, hfirst, ?_, hcut, ?_, ?_, hc⟩
        · simpa using hread
        · simp [hcut]
        · simp
  · rintro ⟨start, _, rest, hfirst, hread, hcut, rfl, hpreamble, hc⟩
    have hf : findHeader? text.toList = some ⟨start, view.name.toList, rest⟩ :=
      findHeader?_eq_some_iff.2 ⟨hfirst, hread⟩
    rw [parse_eq, hf]
    simp only [viewBehind, hc, hcut, ← hpreamble, List.length_append, Nat.add_sub_cancel,
      List.take_left, String.ofList_toList]
    rfl

theorem ParsedAt.sound {start : Nat} {lead : List Char} (h : ParsedAt text view start lead rest) :
    (∀ cte ∈ view.ctes, cte.Sound) ∧ trim view.body.toList = view.body.toList ∧
      (Introducer.first.behind view.ctes).read? (dropComments false view.body.toList) = none :=
  sound_of_readCtes h.ctes (by rw [String.toList_ofList, trim_trim])

theorem ParsedAt.exists_headerText {start : Nat} {lead : List Char}
    (h : ParsedAt text view start lead rest) :
    ∃ ends dangling, IsHeaderText view.name.toList ends dangling view.header.toList := by
  obtain ⟨ends, dangling, lead', hcut, hh⟩ := View.exists_headerText h.read
  rw [h.cut] at hcut
  obtain rfl := List.append_cancel_right hcut
  exact ⟨ends, dangling, h.header ▸ hh⟩

-- ---------------------------------------------------------------------------
-- The preamble
-- ---------------------------------------------------------------------------

theorem finish_append_of_blank {gap : List Char} (hg : ∀ c ∈ gap, isBlank c = true)
    (text : List Char) : finish .code (gap ++ text) = finish .code text := by
  have hstays : ∀ c ∈ gap, leavesCode c = false := fun c hc => stays_of_class (hg c hc) (by decide)
  rw [finish_code, finish_code, Cursor.after_append, Cursor.after_of_stays hstays]

/-- A text that ends in code ends there as well when it is trimmed and a line break follows. -/
theorem finish_trim_line (h : finish .code text = .code) :
    finish .code (trim text ++ ['\n']) = .code := by
  obtain ⟨gap, gap', htext, hg, hg'⟩ := blank_trim_blank text
  have hends : (finish .code (trim text)).EndsInCode := by
    refine endsInCode_of_append (fun c hc => idle_of_isBlank (hg' c hc)) (.inl ?_)
    rw [← finish_append_of_blank hg, ← htext, h]
  obtain ⟨-, hregion⟩ : _ ∧ (Cursor.code.after (some '\n') (trim text)).region = _ :=
    Cursor.code_of_not_pairsBack rfl (trim text)
  rw [← hregion] at hends
  have hback := Cursor.move_newline (Cursor.taken_after_of_endsInCode rfl rfl hends) hends none
  rw [finish_code, Cursor.after_append]
  exact congrArg Cursor.region hback

-- ---------------------------------------------------------------------------
-- The header
-- ---------------------------------------------------------------------------

theorem finish_of_codeAt {c : Char} (h : codeAt text place = true)
    (hd : text.drop place = c :: rest) (hc : pairsBack c = false) :
    finish .code (text.take place) = .code := by
  have hl : (text.take place).length = place := by
    rw [List.length_take, Nat.min_eq_left (Nat.le_of_lt (lt_length_of_code h))]
  rw [codeAt, mark_code, ← List.take_append_drop place text, hd] at h
  have hnext : (some c).any pairsBack = false := hc
  generalize text.take place = front at h hl ⊢
  subst hl
  exact (Cursor.after_eq_code_iff hnext).1 (Cursor.after_eq_code h)

theorem not_pairsBack_of_fold (h : fold c = 'c') : pairsBack c = false := by
  have hn : c ∉ ['-', '/', '*'] := not_mem_of_class (p := (fold · == 'c')) (by simp [h]) (by decide)
  simpa [pairsBack, and_assoc] using hn

variable {start : Nat} {lead : List Char}

/-- The line break behind the preamble leaves the header in code. -/
theorem ParsedAt.codeAt_render (h : ParsedAt text view start lead rest) :
    codeAt view.render.toList view.front.length = true := by
  obtain ⟨ends, dangling, hh⟩ := h.exists_headerText
  obtain ⟨c, more, hlead, hc⟩ := hh.head
  have hfront : Cursor.code.after (some c) view.front = Cursor.code := by
    unfold front
    split
    · rfl
    · rw [h.preamble]
      have hcut : text.drop start = c :: (more ++ rest) := by
        rw [h.cut, ← h.header, hlead, List.cons_append]
      have hcode := finish_of_codeAt h.first.1.code hcut (not_pairsBack_of_fold hc)
      exact after_line (finish_trim_line hcode) (some c)
  rw [toList_render, hlead, List.cons_append]
  exact codeAt_append hfront (stays_of_fold hc) _

theorem ParsedAt.drop_render (h : ParsedAt view.render.toList view start lead rest)
    (htrim : trim view.front = view.preamble.toList) :
    start = view.front.length ∧ rest = '\n' :: view.back := by
  obtain ⟨ends, dangling, hh⟩ := h.exists_headerText
  have hsplit : view.render.toList.take start ++ (view.header.toList ++ rest) =
      view.front ++ (view.header.toList ++ '\n' :: view.back) := by
    rw [h.header, ← h.cut, List.take_append_drop, toList_render, h.header]
  have hfront := eq_of_trim_eq hsplit (hh.head_not_blank _) (hh.head_not_blank _)
    (h.preamble.symm.trans htrim.symm)
  rw [hfront] at hsplit
  have hle := lt_length_of_code h.first.1.code
  refine ⟨?_, List.append_cancel_left (List.append_cancel_left hsplit)⟩
  rw [← hfront, List.length_take]
  omega

/-- A view that came from a text is read back as it was exactly when its header ends its line, and
is the first header of the written text that begins in code and not inside another one. -/
theorem parse_render_parsed_iff {text : String} {view : View} (h : parse text = .ok view) :
    parse view.render = .ok view ↔
      (∃ ends dangling, IsHeaderText view.name.toList ends dangling view.header.toList ∧
        (ends = false → view.ctes ≠ [] ∨ as? view.body.toList = none) ∧
        (dangling = true → ¬ClosesQualifier view.back)) ∧
      ¬Swallowed view.render.toList view.front.length ∧
      ∀ earlier < view.front.length, ¬FreeHeader view.render.toList earlier := by
  obtain ⟨start, lead, rest, hp⟩ := parse_eq_ok_iff.1 h
  obtain ⟨hctes, hbody, hnext⟩ := hp.sound
  have htrim : trim view.front = view.preamble.toList :=
    trim_front_of_trimmed (by rw [hp.preamble, trim_trim])
  have hdrop : view.render.toList.drop view.front.length =
      view.header.toList ++ '\n' :: view.back := by
    rw [toList_render, List.drop_left]
  rw [parse_eq_ok_iff]
  constructor
  · rintro ⟨start', lead', rest', hr⟩
    obtain ⟨ends, dangling, hh⟩ := hp.exists_headerText
    obtain ⟨rfl, rfl⟩ := hr.drop_render htrim
    have hread := hr.read
    rw [hdrop] at hread
    obtain ⟨has, hq⟩ := (header?_line_iff hh).1 hread
    exact ⟨⟨ends, dangling, hh, fun he => (as?_back_iff hbody).1 (has he), hq⟩,
      hr.first.1.free, hr.first.2⟩
  · rintro ⟨⟨ends, dangling, hh, has, hq⟩, hfree, hearlier⟩
    have hread := (header?_line_iff hh).2 ⟨fun he => (as?_back_iff hbody).2 (has he), hq⟩
    rw [← hdrop] at hread
    have hpattern := isSome_header?_iff.1 (Option.isSome_iff_exists.2 ⟨_, hread⟩)
    have hfirst : FirstHeader view.render.toList view.front.length :=
      ⟨⟨hp.codeAt_render, ⟨boundary_front view, hpattern⟩, hfree⟩, hearlier⟩
    refine ⟨_, _, _, hfirst, hread, hdrop, rfl, ?_, readCtes_of_sound hctes hbody hnext⟩
    rw [toList_render, List.take_left, htrim]

/-- A text with a qualifier, quoted names, a header that does not end in AS and a CTE without it. -/
def spacedText : String :=
  "\n-- daily\n\ncreate view r.`v`  With `a`(SELECT ')') -- all\nSELECT 1 FROM a "

def spacedView : View where
  name := "v"
  preamble := "-- daily"
  header := "create view r.`v`"
  ctes := [⟨"a", "(SELECT ')')"⟩]
  body := "-- all\nSELECT 1 FROM a"

theorem parse_spacedText : parse spacedText = .ok spacedView := by
  have hfound : findHeader? spacedText.toList = some ⟨11, ['v'], spacedText.toList.drop 28⟩ := by
    decide
  have hread : Introducer.first.read? (dropComments false (trimStart
      (String.ofList (trim (spacedText.toList.drop 28))).toList)) =
        some (['a'], "(SELECT ')') -- all\nSELECT 1 FROM a".toList) := by
    decide
  have hgroup : group? "SELECT ')') -- all\nSELECT 1 FROM a".toList =
      some ("SELECT ')')".toList, " -- all\nSELECT 1 FROM a".toList) := by
    decide
  have hnone : Introducer.more.read? (dropComments false
      (trimStart " -- all\nSELECT 1 FROM a".toList)) = none := by
    decide
  rw [parse_eq, hfound]
  show (readCtes _).map _ = _
  rw [readCtes, readChain_of_group hread hgroup, readChain_of_none hnone]
  rfl

theorem parse_render_spacedText :
    parse spacedText = .ok spacedView ∧ parse spacedView.render = .ok spacedView := by
  have hheader : IsHeaderText spacedView.name.toList false false spacedView.header.toList := by
    have ho : IsOpening (['c', 'r', 'e', 'a', 't', 'e'] ++ ([' '] ++ ([] ++
        (['v', 'i', 'e', 'w'] ++ [' '])))) :=
      .mk rfl (by decide) .absent rfl (by decide)
    have hn : IsHeaderName ['v'] false (['r'] ++ '.' :: ([backtick] ++ (['v'] ++ [backtick]))) :=
      .qualified (.word (by decide)) (.inr rfl) (.inr rfl)
    exact .mk ho hn (by decide) .absent
  have hfound : findHeader? spacedView.render.toList =
      some ⟨spacedView.front.length, spacedView.name.toList, '\n' :: spacedView.back⟩ := by
    decide
  obtain ⟨⟨hfree, hearlier⟩, -⟩ := findHeader?_eq_some_iff.1 hfound
  have hctes : spacedView.ctes ≠ [] := by decide
  exact ⟨parse_spacedText, (parse_render_parsed_iff parse_spacedText).2
    ⟨⟨false, false, hheader, fun _ => .inl hctes, (absurd · Bool.false_ne_true)⟩,
      hfree.free, hearlier⟩⟩

/-- Without blank space before it AS does not belong to the header, but on a line of its own it is
taken for the end of the header. -/
def unspacedText : String := "CREATE VIEW `v`AS SELECT 1 FROM t"

def unspacedView : View where
  name := "v"
  preamble := ""
  header := "CREATE VIEW `v`"
  ctes := []
  body := "AS SELECT 1 FROM t"

theorem parse_render_unspacedText :
    parse unspacedText = .ok unspacedView ∧ parse unspacedView.render ≠ .ok unspacedView := by
  have hfound : findHeader? unspacedText.toList =
      some ⟨0, ['v'], "AS SELECT 1 FROM t".toList⟩ := by decide
  have hagain : findHeader? unspacedView.render.toList =
      some ⟨0, ['v'], " SELECT 1 FROM t".toList⟩ := by decide
  have hnone : Introducer.first.read? (dropComments false (trimStart
      (String.ofList (trim "AS SELECT 1 FROM t".toList)).toList)) = none := by decide
  have hnone' : Introducer.first.read? (dropComments false (trimStart
      (String.ofList (trim " SELECT 1 FROM t".toList)).toList)) = none := by decide
  rw [parse_eq, hfound, parse_eq, hagain]
  show (readCtes _).map _ = _ ∧ (readCtes _).map _ ≠ _
  rw [readCtes, readCtes, readChain_of_none hnone, readChain_of_none hnone']
  decide

end ViewRollout.View
