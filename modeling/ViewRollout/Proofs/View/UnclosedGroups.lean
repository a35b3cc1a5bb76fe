import ViewRollout.Proofs.Sql.ByteMarks
import ViewRollout.Proofs.View.ChainReading
import ViewRollout.Proofs.View.HeaderSearch

/-!
# Groups that are never closed

`parse_unclosed_iff`: a statement is refused for an unclosed group when the
chain behind its header leads to a parenthesis that nothing in the text closes.
The offset that is reported counts from where the chain begins, which is behind
the header and the blank space after it; so it always falls short of the offset
of the parenthesis in the text.
-/

namespace ViewRollout.View

open Sql Text

/-- The text is parsed with a header that ends in `front`, followed by blank space only; the
remainder is all behind that but for the blank space at the end. -/
structure BehindHeader (text front remainder back : List Char) : Prop where
  whole : text = front ++ (remainder ++ back)
  header : ∃ start stop, FirstHeader text start ∧ EndsBefore text start stop ∧
    stop ≤ front.length ∧ ∀ c ∈ front.drop stop, isBlank c = true
  trimmed : trim remainder = remainder
  blank : ∀ c ∈ back, isBlank c = true

/-- The CTEs that the text begins with are all closed, and behind `before` the group of the next one
opens. -/
def LeadsTo (text before inner : List Char) : Prop :=
  ∃ links rest lead name, text = writtenLinks links ++ rest ∧
    IsChain text .first [] links rest ∧
    Opens (Introducer.first.behind (links.map Link.cte)) rest lead name inner ∧
    before = writtenLinks links ++ lead

variable {text front remainder back before inner : List Char} {header : Header}

-- ---------------------------------------------------------------------------
-- The remainder behind the header
-- ---------------------------------------------------------------------------

theorem rest_eq_drop {name rest : List Char} {start stop : Nat}
    (h : header? (text.drop start) = some (name, rest)) (hstop : stop + rest.length = text.length) :
    rest = text.drop stop := by
  obtain ⟨lead, hlead, -⟩ := exists_matches h
  have hbehind : rest <:+ text.drop start := ⟨lead, hlead.symm⟩
  have hsuffix : rest <:+ text := hbehind.trans (List.drop_suffix start text)
  have hstop : text.length - rest.length = stop := by omega
  rw [← hstop]
  exact List.suffix_iff_eq_drop.1 hsuffix

theorem BehindHeader.front_pos (h : BehindHeader text front remainder back) :
    0 < byteSize front := by
  obtain ⟨start, stop, -, hends, hle, -⟩ := h.header
  refine byteSize_pos fun hnil => ?_
  have hb := hends.bounds
  rw [hnil, List.length_nil] at hle
  omega

theorem BehindHeader.paren (h : BehindHeader text front (before ++ '(' :: inner) back) :
    text = (front ++ before) ++ '(' :: (inner ++ back) := by
  rw [h.whole]
  simp

theorem BehindHeader.found (h : BehindHeader text front remainder back) :
    ∃ header, findHeader? text = some header ∧ trim header.rest = remainder := by
  obtain ⟨start, stop, hfirst, ⟨name, rest, hread, hstop⟩, hle, hgap⟩ := h.header
  refine ⟨⟨start, name, rest⟩, findHeader?_eq_some_iff.2 ⟨hfirst, hread⟩, ?_⟩
  have hrest : rest = front.drop stop ++ (remainder ++ back) := by
    rw [rest_eq_drop hread hstop, h.whole, List.drop_append_of_le_length hle]
  show trim rest = remainder
  rw [hrest, trim, trimStart_append_of_blank hgap, ← trim, trim_append_of_blank h.blank, h.trimmed]

theorem exists_behindHeader (h : findHeader? text = some header) :
    ∃ front back, BehindHeader text front (trim header.rest) back := by
  obtain ⟨hfirst, hread⟩ := findHeader?_eq_some_iff.1 h
  obtain ⟨gap, back, hrest, hgap, hback⟩ := blank_trim_blank header.rest
  obtain ⟨stop, hends⟩ := hfirst.1.begins.exists_end
  have hstop : stop + header.rest.length = text.length := by
    obtain ⟨name, rest, hread', hstop⟩ := hends
    cases hread.symm.trans hread'
    exact hstop
  have hdrop : text.drop stop = gap ++ (trim header.rest ++ back) := by
    rw [← rest_eq_drop hread hstop, ← hrest]
  have hlen : (text.take stop).length = stop := by
    rw [List.length_take]
    have := hends.bounds
    omega
  refine ⟨text.take stop ++ gap, back, ?_, ⟨header.start, stop, hfirst, hends, ?_, ?_⟩,
    trim_trim _, hback⟩
  · rw [List.append_assoc, ← hdrop, List.take_append_drop]
  · rw [List.length_append, hlen]
    exact Nat.le_add_right ..
  · rwa [List.drop_left' hlen]

-- ---------------------------------------------------------------------------
-- What is reported
-- ---------------------------------------------------------------------------

theorem LeadsTo.eq_append (h : LeadsTo text before inner) : text = before ++ '(' :: inner := by
  obtain ⟨links, rest, lead, name, rfl, -, ⟨_, _, rfl, -⟩, rfl⟩ := h
  rw [List.append_assoc]

theorem readCtes_unclosed_iff {text : String} {offset : Nat} :
    readCtes text = .error (.unclosedParen offset) ↔ ∃ before inner,
      LeadsTo text.toList before inner ∧ offset = byteSize before ∧
        closing? 0 (mark .code inner) = none := by
  have hgroup {before inner : List Char} (h : LeadsTo text.toList before inner) :
      closing? 0 (mark .code inner) = none ↔
        ∀ place, closingParen text.toList (before.length + 1) ≠ .ok place := by
    rw [h.eq_append, ← group?_eq_none_iff, group?, closingFrom?_eq, Option.map_eq_none_iff]
  rw [readCtes_eq_error_iff]
  constructor
  · rintro ⟨links, rest, ht, hc, lead, name, inner, ho, rfl, hclose⟩
    have hleads : LeadsTo text.toList (writtenLinks links ++ lead) inner :=
      ⟨links, rest, lead, name, ht, hc, ho, rfl⟩
    exact ⟨_, inner, hleads, rfl, (hgroup hleads).2 hclose⟩
  · rintro ⟨before, inner, hleads, rfl, hclose⟩
    have hnever := (hgroup hleads).1 hclose
    obtain ⟨links, rest, lead, name, ht, hc, ho, rfl⟩ := hleads
    exact ⟨links, rest, ht, hc, lead, name, inner, ho, rfl, hnever⟩

theorem parse_eq_error_iff {text : String} {offset : Nat} :
    parse text = .error (.unclosedParen offset) ↔ ∃ header, findHeader? text.toList = some header ∧
      readCtes (String.ofList (trim header.rest)) = .error (.unclosedParen offset) := by
  rw [parse_eq]
  cases findHeader? text.toList with
  | none => simp
  | some header =>
    simp only [viewBehind, Option.some.injEq, exists_eq_left']
    cases readCtes (String.ofList (trim header.rest)) <;> simp [Except.map]

theorem BehindHeader.unclosed_iff {text : String}
    (h : BehindHeader text.toList front (before ++ '(' :: inner) back) :
    closingParen (bytes text).chars (byteSize front + byteSize before + 1) =
        .error (.unclosedParen (byteSize front + byteSize before)) ↔
      closing? 0 (mark .code inner) = none := by
  -- The blank space behind the remainder closes nothing.
  have hidle : ∀ c ∈ back, Idle c := fun c hc => idle_of_isBlank (h.blank c hc)
  have hclosing := closingParen_units (front ++ before) (inner ++ back)
  rw [← h.paren, closing?_append_idle hidle, byteSize_append] at hclosing
  rw [show (bytes text).chars = units text.toList from rfl, hclosing]
  cases closing? 0 (mark .code inner) <;> simp

theorem BehindHeader.getElem?_bytes {text : String}
    (h : BehindHeader text.toList front (before ++ '(' :: inner) back) :
    (bytes text)[byteSize front + byteSize before]? = some 0x28 := by
  have hparen : encode ('(' :: (inner ++ back)) = 0x28 :: encode (inner ++ back) := rfl
  rw [bytes, h.paren, encode_append, hparen, ← byteSize_append, ← length_encode,
    List.getElem?_append_right (Nat.le_refl _), Nat.sub_self, List.getElem?_cons_zero]

/-- A statement is refused for an unclosed group exactly when its chain leads to a parenthesis that
nothing in the text closes. The reported offset is less than that of the parenthesis in the text, by
the bytes in front of the chain; there are always some. -/
theorem parse_unclosed_iff (text : String) (offset : Nat) :
    parse text = .error (.unclosedParen offset) ↔ ∃ front before inner back,
      BehindHeader text.toList front (before ++ '(' :: inner) back ∧
      LeadsTo (before ++ '(' :: inner) before inner ∧
      offset = byteSize before ∧ 0 < byteSize front ∧
      (bytes text)[byteSize front + offset]? = some 0x28 ∧
      closingParen (bytes text).chars (byteSize front + offset + 1) =
        .error (.unclosedParen (byteSize front + offset)) := by
  rw [parse_eq_error_iff]
  constructor
  · rintro ⟨header, hfound, hread⟩
    obtain ⟨before, inner, hleads, rfl, hclose⟩ := readCtes_unclosed_iff.1 hread
    obtain ⟨front, back, hbehind⟩ := exists_behindHeader hfound
    rw [String.toList_ofList] at hleads
    have htrim := hleads.eq_append
    rw [htrim] at hleads hbehind
    exact ⟨front, before, inner, back, hbehind, hleads, rfl, hbehind.front_pos,
      hbehind.getElem?_bytes, hbehind.unclosed_iff.2 hclose⟩
  · rintro ⟨front, before, inner, back, hbehind, hleads, rfl, -, -, hclose⟩
    obtain ⟨header, hfound, htrim⟩ := hbehind.found
    refine ⟨header, hfound, readCtes_unclosed_iff.2 ⟨before, inner, ?_, rfl,
      hbehind.unclosed_iff.1 hclose⟩⟩
    rwa [String.toList_ofList, htrim]

/-- The parenthesis is the byte at 27, and the byte at the reported offset is a letter. -/
theorem parse_unclosed_misplaced :
    parse "CREATE VIEW v AS WITH a AS (SELECT 1" = .error (.unclosedParen 10) ∧
      (bytes "CREATE VIEW v AS WITH a AS (SELECT 1")[10]? = some 0x57 ∧
      (bytes "CREATE VIEW v AS WITH a AS (SELECT 1")[27]? = some 0x28 := by
  decide +kernel

end ViewRollout.View
