import Mathlib.Data.Nat.Find
import ViewRollout.Proofs.Sql.Cursor
import ViewRollout.Proofs.View.HeaderPattern
import ViewRollout.View.Basic

/-!
# The search for the header

`parse_firstHeader`: a text is parsed with the first header that begins in
code and not inside another header, and has no header when there is none like
that. Headers are looked for from left to right and do not overlap, in code or
not. `Headers` lists them for a text, and the search gives the first one of
the list that begins in code; so a header that begins in a comment may take
along the beginning of the one that was meant.
-/

namespace ViewRollout.View

open Sql Text

/-- Whether the character at the place of the text is plain code. -/
def codeAt (text : List Char) (place : Nat) : Bool :=
  (mark .code text)[place]?.any (·.code)

/-- The pattern of headers matches at the place of the text, and a word may begin there. -/
structure HeaderBegins (text : List Char) (place : Nat) : Prop where
  boundary : (text.take place).getLast?.any isWordChar = false
  pattern : ∃ name rest lead, text.drop place = lead ++ rest ∧ Matches name rest lead

/-- The header that is read at the place ends before `stop`. -/
def EndsBefore (text : List Char) (place stop : Nat) : Prop :=
  ∃ name rest, header? (text.drop place) = some (name, rest) ∧ stop + rest.length = text.length

/-- The headers of a text from a place on, each with its end: the first header there is, then the
first one behind it, and so on. -/
inductive Headers (text : List Char) : Nat → List (Nat × Nat) → Prop where
  | done {start : Nat} : (∀ place, start ≤ place → ¬HeaderBegins text place) →
      Headers text start []
  | next {start place stop : Nat} {spans : List (Nat × Nat)} : start ≤ place →
      HeaderBegins text place → (∀ i, start ≤ i → i < place → ¬HeaderBegins text i) →
      EndsBefore text place stop → Headers text stop spans →
      Headers text start ((place, stop) :: spans)

/-- The place is inside one of the headers, not where it begins. -/
def Swallowed (text : List Char) (place : Nat) : Prop :=
  ∃ spans, Headers text 0 spans ∧ ∃ span ∈ spans, span.1 < place ∧ place < span.2

/-- A header that begins in code and not inside another one. -/
structure FreeHeader (text : List Char) (place : Nat) : Prop where
  code : codeAt text place = true
  begins : HeaderBegins text place
  free : ¬Swallowed text place

def FirstHeader (text : List Char) (place : Nat) : Prop :=
  FreeHeader text place ∧ ∀ earlier < place, ¬FreeHeader text earlier

variable {text : List Char} {start place stop : Nat} {spans : List (Nat × Nat)}

-- ---------------------------------------------------------------------------
-- Where headers begin and end
-- ---------------------------------------------------------------------------

theorem headerBegins_iff : HeaderBegins text place ↔ headerAt text place = true := by
  rw [headerAt, Bool.and_eq_true, Bool.not_eq_true', isSome_header?_iff]
  exact ⟨fun h => ⟨h.boundary, h.pattern⟩, fun h => ⟨h.1, h.2⟩⟩

instance (text : List Char) (place : Nat) : Decidable (HeaderBegins text place) :=
  decidable_of_iff _ headerBegins_iff.symm

theorem HeaderBegins.exists_read (h : HeaderBegins text place) :
    ∃ name rest, header? (text.drop place) = some (name, rest) := by
  obtain ⟨⟨name, rest⟩, hr⟩ := Option.isSome_iff_exists.1 (isSome_header?_iff.2 h.pattern)
  exact ⟨name, rest, hr⟩

theorem length_of_header? {name rest : List Char} (h : header? text = some (name, rest)) :
    rest.length < text.length := by
  obtain ⟨lead, rfl, hm⟩ := exists_matches h
  have hpos := hm.length_pos
  rw [List.length_append]
  omega

theorem HeaderBegins.exists_end (h : HeaderBegins text place) :
    ∃ stop, EndsBefore text place stop := by
  obtain ⟨name, rest, hr⟩ := h.exists_read
  have hl := length_of_header? hr
  rw [List.length_drop] at hl
  exact ⟨text.length - rest.length, name, rest, hr, by omega⟩

theorem EndsBefore.bounds (h : EndsBefore text place stop) :
    place < stop ∧ stop ≤ text.length := by
  obtain ⟨name, rest, hr, hstop⟩ := h
  have hl := length_of_header? hr
  rw [List.length_drop] at hl
  omega

theorem EndsBefore.unique {stop' : Nat} (h : EndsBefore text place stop)
    (h' : EndsBefore text place stop') : stop = stop' := by
  obtain ⟨name, rest, hr, hstop⟩ := h
  obtain ⟨name', rest', hr', hstop'⟩ := h'
  obtain ⟨-, rfl⟩ := Prod.mk.inj (Option.some.inj (hr.symm.trans hr'))
  omega

theorem stays_of_fold (h : fold c = 'c') : leavesCode c = false :=
  stays_of_class (p := (fold · == 'c')) (by simp [h]) (by decide)

theorem codeAt_append {front : List Char} (ha : Cursor.code.after (some c) front = Cursor.code)
    (hc : leavesCode c = false) (rest : List Char) :
    codeAt (front ++ c :: rest) front.length = true := by
  rw [codeAt, mark_code, Cursor.marks_append, List.head?_cons, Option.some_or, ha,
    List.getElem?_append_right (by simp), Cursor.length_marks, Nat.sub_self]
  exact Cursor.isCode_of_stays hc _

-- ---------------------------------------------------------------------------
-- The headers of a text
-- ---------------------------------------------------------------------------

theorem exists_headers (text : List Char) (start : Nat) : ∃ spans, Headers text start spans := by
  by_cases h : ∃ place, start ≤ place ∧ HeaderBegins text place
  · have hfirst := Nat.find_spec h
    obtain ⟨stop, hstop⟩ := hfirst.2.exists_end
    have hb := hstop.bounds
    obtain ⟨spans, hs⟩ := exists_headers text stop
    have hmin : ∀ i, start ≤ i → i < Nat.find h → ¬HeaderBegins text i :=
      fun i hi hlt hbegins => Nat.find_min h hlt ⟨hi, hbegins⟩
    exact ⟨(Nat.find h, stop) :: spans, .next hfirst.1 hfirst.2 hmin hstop hs⟩
  · exact ⟨[], .done fun place hp hbegins => h ⟨place, hp, hbegins⟩⟩
termination_by text.length - start
decreasing_by
  have := hfirst.1
  omega

theorem Headers.unique {spans' : List (Nat × Nat)} (h : Headers text start spans)
    (h' : Headers text start spans') : spans = spans' := by
  induction h generalizing spans' with
  | done hn =>
    cases h' with
    | done => rfl
    | next hle hb => exact absurd hb (hn _ hle)
  | @next start place stop spans hle hb hfirst hend _ ih =>
    cases h' with
    | done hn => exact absurd hb (hn _ hle)
    | @next _ place' stop' spans' hle' hb' hfirst' hend' hs =>
      have hplace : place = place' := by
        rcases Nat.lt_trichotomy place place' with hlt | heq | hgt
        · exact absurd hb (hfirst' _ hle hlt)
        · exact heq
        · exact absurd hb' (hfirst _ hle' hgt)
      subst hplace
      obtain rfl := hend.unique hend'
      rw [ih hs]

theorem Headers.le (h : Headers text start spans) : ∀ span ∈ spans, start ≤ span.1 := by
  induction h with
  | done => simp
  | next hle _ _ hend _ ih =>
    have hb := hend.bounds
    intro span hm
    rcases List.mem_cons.1 hm with rfl | hm
    · exact hle
    · have := ih span hm
      omega

theorem Headers.begins (h : Headers text start spans) :
    ∀ span ∈ spans, HeaderBegins text span.1 := by
  induction h with
  | done => simp
  | next _ hb _ _ _ ih =>
    intro span hm
    rcases List.mem_cons.1 hm with rfl | hm
    · exact hb
    · exact ih span hm

theorem Headers.apart (h : Headers text start spans) :
    spans.Pairwise fun span later => span.1 < later.1 ∧ span.2 ≤ later.1 := by
  induction h with
  | done => exact .nil
  | next _ _ _ hend hs ih =>
    refine .cons (fun later hm => ?_) ih
    have hb := hend.bounds
    have hle := hs.le later hm
    exact ⟨by omega, hle⟩

theorem Headers.covers (h : Headers text start spans) (hle : start ≤ place)
    (hb : HeaderBegins text place) :
    ∃ span ∈ spans, span.1 = place ∨ span.1 < place ∧ place < span.2 := by
  induction h with
  | done hn => exact absurd hb (hn _ hle)
  | @next start first stop spans _ _ hfirst _ _ ih =>
    rcases Nat.lt_trichotomy place first with hlt | heq | hgt
    · exact absurd hb (hfirst _ hle hlt)
    · exact ⟨_, List.mem_cons_self .., .inl heq.symm⟩
    · rcases Nat.lt_or_ge place stop with hin | hout
      · exact ⟨_, List.mem_cons_self .., .inr ⟨hgt, hin⟩⟩
      · obtain ⟨span, hm, hs⟩ := ih hout
        exact ⟨span, List.mem_cons_of_mem _ hm, hs⟩

theorem swallowed_iff (h : Headers text 0 spans) :
    Swallowed text place ↔ ∃ span ∈ spans, span.1 < place ∧ place < span.2 := by
  constructor
  · rintro ⟨spans', h', hs⟩
    rwa [h.unique h']
  · exact fun hs => ⟨spans, h, hs⟩

theorem Headers.not_inside (h : Headers text start spans) {span other : Nat × Nat}
    (hm : span ∈ spans) (ho : other ∈ spans) : ¬(other.1 < span.1 ∧ span.1 < other.2) := by
  obtain ⟨before, behind, rfl⟩ := List.append_of_mem hm
  obtain ⟨-, hbehind, hbefore⟩ := List.pairwise_append.1 h.apart
  have hbehind := (List.pairwise_cons.1 hbehind).1
  rcases List.mem_append.1 ho with ho | ho
  · have := hbefore other ho span (List.mem_cons_self ..)
    omega
  · rcases List.mem_cons.1 ho with rfl | ho
    · omega
    · have := hbehind other ho
      omega

/-- A header is free when the search, going from one header to the next, comes to it in code. -/
theorem freeHeader_iff (h : Headers text 0 spans) :
    FreeHeader text place ↔ codeAt text place = true ∧ ∃ span ∈ spans, span.1 = place := by
  constructor
  · rintro ⟨hc, hb, hfree⟩
    obtain ⟨span, hm, hs⟩ := h.covers (Nat.zero_le _) hb
    rcases hs with heq | hin
    · exact ⟨hc, span, hm, heq⟩
    · exact absurd ((swallowed_iff h).2 ⟨span, hm, hin⟩) hfree
  · rintro ⟨hc, span, hm, rfl⟩
    refine ⟨hc, h.begins span hm, fun hs => ?_⟩
    obtain ⟨other, ho, hin⟩ := (swallowed_iff h).1 hs
    exact h.not_inside hm ho hin

theorem Headers.firstHeader {before behind : List (Nat × Nat)} {span : Nat × Nat}
    (h : Headers text 0 (before ++ span :: behind)) (hc : codeAt text span.1 = true)
    (hbefore : ∀ other ∈ before, codeAt text other.1 = false) : FirstHeader text span.1 := by
  refine ⟨(freeHeader_iff h).2 ⟨hc, span, by simp, rfl⟩, fun earlier hlt hfree => ?_⟩
  obtain ⟨hc', other, ho, rfl⟩ := (freeHeader_iff h).1 hfree
  rcases List.mem_append.1 ho with ho | ho
  · rw [hbefore other ho] at hc'
    cases hc'
  · rcases List.mem_cons.1 ho with rfl | ho
    · exact Nat.lt_irrefl _ hlt
    · have hbehind := (List.pairwise_append.1 h.apart).2.1
      have := (List.pairwise_cons.1 hbehind).1 other ho
      omega

theorem firstHeader_of_no_earlier (hc : codeAt text place = true) (hb : HeaderBegins text place)
    (hn : ∀ earlier < place, ¬HeaderBegins text earlier) : FirstHeader text place := by
  refine ⟨⟨hc, hb, ?_⟩, fun earlier hlt hfree => hn earlier hlt hfree.begins⟩
  rintro ⟨spans, hs, span, hm, hlt, -⟩
  exact hn span.1 hlt (hs.begins span hm)

-- ---------------------------------------------------------------------------
-- The search
-- ---------------------------------------------------------------------------

/-- The search at a place of the text, the next `passed` characters of which belong to a header
that was passed over. -/
def searchAt (text : List Char) (place passed : Nat) : Option Header :=
  headerFrom? place passed (text.take place).getLast? (text.drop place)
    ((codeFlags text).drop place)

def readAt (text : List Char) (place : Nat) : Option Header :=
  (header? (text.drop place)).map fun (name, rest) => ⟨place, name, rest⟩

theorem searchAt_end (h : text.length ≤ place) (passed : Nat) :
    searchAt text place passed = none := by
  rw [searchAt, List.drop_eq_nil_of_le h]
  rfl

theorem exists_cut (h : place < text.length) :
    ∃ c, text.drop place = c :: text.drop (place + 1) ∧
      (codeFlags text).drop place = codeAt text place :: (codeFlags text).drop (place + 1) ∧
      (text.take (place + 1)).getLast? = some c := by
  have hm : place < (mark .code text).length := by rwa [length_mark]
  have hf : place < (codeFlags text).length := by rwa [codeFlags, List.length_map]
  refine ⟨text[place], List.drop_eq_getElem_cons h, ?_, ?_⟩
  · rw [List.drop_eq_getElem_cons hf]
    simp [codeFlags, codeAt, hm]
  · rw [List.take_add_one, List.getElem?_eq_getElem h]
    exact List.getLast?_concat

theorem searchAt_passed (h : place < text.length) (passed : Nat) :
    searchAt text place (passed + 1) = searchAt text (place + 1) passed := by
  obtain ⟨c, ht, hf, hl⟩ := exists_cut h
  rw [searchAt, ht, hf, headerFrom?, searchAt, hl]

theorem searchAt_add (passed : Nat) :
    searchAt text place passed = searchAt text (place + passed) 0 := by
  induction passed generalizing place with
  | zero => rfl
  | succ passed ih =>
    rcases Nat.lt_or_ge place text.length with hlt | hge
    · rw [searchAt_passed hlt, ih]
      congr 1
      omega
    · rw [searchAt_end hge, searchAt_end (by omega)]

theorem searchAt_next (h : ¬HeaderBegins text place) :
    searchAt text place 0 = searchAt text (place + 1) 0 := by
  rcases Nat.lt_or_ge place text.length with hlt | hge
  · obtain ⟨c, ht, hf, hl⟩ := exists_cut hlt
    have hn : (if (text.take place).getLast?.any isWordChar = true then none
        else header? (c :: text.drop (place + 1))) = none := by
      rw [headerBegins_iff, headerAt, ht] at h
      split
      · rfl
      · simp_all
    rw [searchAt, ht, hf, headerFrom?, searchAt, hl]
    simp only [hn]
  · rw [searchAt_end hge, searchAt_end (by omega)]

/-- The search gives a header that begins in code, and goes on behind any other one. -/
theorem searchAt_header (h : HeaderBegins text place) (he : EndsBefore text place stop) :
    searchAt text place 0 =
      if codeAt text place = true then readAt text place else searchAt text stop 0 := by
  obtain ⟨name, rest, hr, hstop⟩ := he
  have hb := EndsBefore.bounds ⟨name, rest, hr, hstop⟩
  obtain ⟨c, ht, hf, hl⟩ := exists_cut (show place < text.length by omega)
  have hlen : (text.drop (place + 1)).length - rest.length = stop - (place + 1) := by
    rw [List.length_drop]
    omega
  have hread : (if (text.take place).getLast?.any isWordChar = true then none
      else header? (c :: text.drop (place + 1))) = some (name, rest) := by
    rw [h.boundary, ← ht]
    exact hr
  rw [searchAt, ht, hf, headerFrom?]
  simp only [hread]
  split
  · rw [readAt, hr]
    rfl
  · rw [hlen, ← hl]
    show searchAt text (place + 1) (stop - (place + 1)) = _
    rw [searchAt_add]
    congr 1
    omega

theorem searchAt_skip (hle : start ≤ place)
    (hn : ∀ i, start ≤ i → i < place → ¬HeaderBegins text i) :
    searchAt text start 0 = searchAt text place 0 := by
  induction place, hle using Nat.le_induction with
  | base => rfl
  | succ place hle ih =>
    rw [ih fun i hi hlt => hn i hi (by omega), searchAt_next (hn place hle (by omega))]

/-- The search gives the first of the headers that begins in code. -/
theorem searchAt_eq (h : Headers text start spans) :
    searchAt text start 0 =
      (spans.find? fun span => codeAt text span.1).bind fun span => readAt text span.1 := by
  induction h with
  | @done start hn =>
    have hs : searchAt text start 0 = searchAt text (max start text.length) 0 :=
      searchAt_skip (Nat.le_max_left ..) fun i hi _ => hn i hi
    rw [hs, searchAt_end (Nat.le_max_right ..)]
    rfl
  | @next start place stop spans hle hb hfirst hend _ ih =>
    rw [searchAt_skip hle hfirst, searchAt_header hb hend, List.find?_cons]
    cases codeAt text place with
    | true => rfl
    | false => exact ih

theorem findHeader?_cases (text : List Char) :
    (findHeader? text = none ∧ ∀ place, ¬FreeHeader text place) ∨
      ∃ header, findHeader? text = some header ∧ FirstHeader text header.start ∧
        header? (text.drop header.start) = some (header.name, header.rest) := by
  obtain ⟨spans, hs⟩ := exists_headers text 0
  have hsearch : findHeader? text = _ := searchAt_eq hs
  cases hfind : spans.find? fun span => codeAt text span.1 with
  | none =>
    rw [hfind, Option.bind_none] at hsearch
    refine .inl ⟨hsearch, fun place hfree => ?_⟩
    obtain ⟨hc, span, hm, rfl⟩ := (freeHeader_iff hs).1 hfree
    exact List.find?_eq_none.1 hfind span hm hc
  | some span =>
    rw [hfind, Option.bind_some] at hsearch
    obtain ⟨hc, before, behind, rfl, hbefore⟩ := List.find?_eq_some_iff_append.1 hfind
    have hfirst := hs.firstHeader hc fun other ho => by simpa using hbefore other ho
    obtain ⟨name, rest, hr⟩ := hfirst.1.begins.exists_read
    refine .inr ⟨⟨span.1, name, rest⟩, hsearch.trans ?_, hfirst, hr⟩
    rw [readAt, hr]
    rfl

theorem findHeader?_eq_none_iff :
    findHeader? text = none ↔ ∀ place, ¬FreeHeader text place := by
  rcases findHeader?_cases text with ⟨hn, hfree⟩ | ⟨header, hs, hfirst, -⟩
  · exact ⟨fun _ => hfree, fun _ => hn⟩
  · simp only [hs, reduceCtorEq, false_iff]
    exact fun hfree => hfree _ hfirst.1

theorem FirstHeader.unique {place' : Nat} (h : FirstHeader text place)
    (h' : FirstHeader text place') : place = place' := by
  rcases Nat.lt_trichotomy place place' with hlt | heq | hgt
  · exact absurd h.1 (h'.2 _ hlt)
  · exact heq
  · exact absurd h'.1 (h.2 _ hgt)

theorem findHeader?_eq_some_iff {header : Header} :
    findHeader? text = some header ↔ FirstHeader text header.start ∧
      header? (text.drop header.start) = some (header.name, header.rest) := by
  rcases findHeader?_cases text with ⟨hn, hfree⟩ | ⟨found, hs, hfirst, hread⟩
  · simp only [hn, reduceCtorEq, false_iff]
    exact fun h => hfree _ h.1.1
  · rw [hs]
    constructor
    · intro h
      cases h
      exact ⟨hfirst, hread⟩
    · rintro ⟨hfirst', hread'⟩
      obtain ⟨begun, name, rest⟩ := header
      obtain rfl := hfirst.unique hfirst'
      cases hread.symm.trans hread'
      rfl

-- ---------------------------------------------------------------------------
-- The header of a statement
-- ---------------------------------------------------------------------------

def viewBehind (text : List Char) (header : Header) : Except Defect View :=
  let begun := text.drop header.start
  (readCtes (String.ofList (trim header.rest))).map fun (ctes, body) =>
    { name := String.ofList header.name
      preamble := String.ofList (trim (text.take header.start))
      header := String.ofList (begun.take (begun.length - header.rest.length))
      ctes := ctes
      body := body }

theorem parse_eq (text : String) :
    parse text = match findHeader? text.toList with
      | none => .error .noHeader
      | some header => viewBehind text.toList header := rfl

theorem map_ne_error {α β : Type} {read : Except Defect α} {defect : Defect}
    (h : read ≠ .error defect) (f : α → β) : read.map f ≠ .error defect := by
  cases read with
  | error => simpa [Except.map] using h
  | ok => simp [Except.map]

theorem readChain_ne_noHeader (size : Nat) (introducer : Introducer) (text : List Char) :
    readChain size introducer text ≠ .error .noHeader := by
  fun_induction readChain size introducer text with
  | case1 => simp
  | case2 => simp
  | case3 _ _ _ _ _ _ _ _ ih => exact map_ne_error ih _
  | case4 => simp

theorem viewBehind_ne_noHeader (text : List Char) (header : Header) :
    viewBehind text header ≠ .error .noHeader :=
  map_ne_error (map_ne_error (readChain_ne_noHeader _ _ _) _) _

theorem parse_firstHeader (text : String) :
    (parse text = .error .noHeader ↔ ∀ place, ¬FreeHeader text.toList place) ∧
    ∀ place, FirstHeader text.toList place → ∃ name rest,
      header? (text.toList.drop place) = some (name, rest) ∧
        parse text = viewBehind text.toList ⟨place, name, rest⟩ := by
  refine ⟨?_, fun place hfirst => ?_⟩
  · rw [← findHeader?_eq_none_iff, parse_eq]
    cases findHeader? text.toList with
    | none => simp
    | some header => simpa using viewBehind_ne_noHeader text.toList header
  · obtain ⟨name, rest, hr⟩ := hfirst.1.begins.exists_read
    have hfound : findHeader? text.toList = some ⟨place, name, rest⟩ :=
      findHeader?_eq_some_iff.2 ⟨hfirst, hr⟩
    exact ⟨name, rest, hr, by rw [parse_eq, hfound]⟩

/-- In the comment stands the beginning of a header, which takes CREATE of the real one along. -/
def commentedCreate : String := "-- CREATE VIEW\nCREATE VIEW v AS SELECT 1 FROM t"

theorem parse_commentedCreate :
    codeAt commentedCreate.toList 15 = true ∧ HeaderBegins commentedCreate.toList 15 ∧
      parse commentedCreate = .error .noHeader := by
  decide

end ViewRollout.View
