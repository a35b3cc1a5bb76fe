import Mathlib.Data.List.Find
import ViewRollout.Proofs.View.CheckedReading
import ViewRollout.Proofs.View.HeaderSearch

/-!
# Parsing with checked accesses

The headers of a text are all that the pattern matches, in code or not; the
first one at whose beginning the mask is on is the header of the view
(`findHeader?_eq_find?`). The mask holds a flag for every byte, so it has one
where a header begins, and the text is cut where the header begins and ends.
-/

namespace ViewRollout.View

open Sql Text

variable {text : List Char} {place passed : Nat} {before : Option Char} {header : Header}

-- ---------------------------------------------------------------------------
-- The headers of a text
-- ---------------------------------------------------------------------------

/-- The headers of a text whose first character stands at `place` after the given one, the first
`passed` characters of which belong to a header already found. -/
def headersFrom (place passed : Nat) (before : Option Char) : List Char → List Header
  | [] => []
  | c :: rest =>
    match passed with
    | passed + 1 => headersFrom (place + 1) passed (some c) rest
    | 0 =>
      match if before.any isWordChar then none else header? (c :: rest) with
      | none => headersFrom (place + 1) 0 (some c) rest
      | some (name, after) =>
        ⟨place, name, after⟩ ::
          headersFrom (place + 1) (rest.length - after.length) (some c) rest

/-- Each header stands in the text, and what follows it ends the text. -/
theorem exists_of_mem_headersFrom (h : header ∈ headersFrom place passed before text) :
    ∃ front lead, text = front ++ (lead ++ header.rest) ∧ header.start = place + front.length ∧
      lead ≠ [] := by
  induction text generalizing place passed before with
  | nil => cases h
  | cons c rest ih =>
    have hinside {passed : Nat} (h : header ∈ headersFrom (place + 1) passed (some c) rest) :
        ∃ front lead, c :: rest = front ++ (lead ++ header.rest) ∧
          header.start = place + front.length ∧ lead ≠ [] := by
      obtain ⟨front, lead, hrest, hstart, hlead⟩ := ih h
      refine ⟨c :: front, lead, by rw [hrest, List.cons_append], ?_, hlead⟩
      rw [hstart, List.length_cons]
      omega
    cases passed with
    | succ passed => exact hinside h
    | zero =>
      rw [headersFrom] at h
      split at h
      · exact hinside h
      · rename_i name after hread
        rcases List.mem_cons.1 h with rfl | h
        · have hread : header? (c :: rest) = some (name, after) := by
            split at hread
            · cases hread
            · exact hread
          obtain ⟨lead, hlead, hm⟩ := exists_matches hread
          exact ⟨[], lead, hlead, rfl, List.ne_nil_of_length_pos hm.length_pos⟩
        · exact hinside h

/-- The header that is found is the first one at whose beginning the flag is on. -/
theorem headerFrom?_eq_find? {flags : List Bool} (hl : flags.length = text.length) :
    headerFrom? place passed before text flags =
      (headersFrom place passed before text).find? fun header =>
        flags[header.start - place]?.getD false := by
  induction text generalizing place passed before flags with
  | nil =>
    rw [List.length_eq_zero_iff.1 hl]
    rfl
  | cons c rest ih =>
    cases flags with
    | nil => cases hl
    | cons code flags =>
      have hinside (passed : Nat) : headerFrom? (place + 1) passed (some c) rest flags =
          (headersFrom (place + 1) passed (some c) rest).find? fun header =>
            (code :: flags)[header.start - place]?.getD false := by
        rw [ih (Nat.succ.inj hl)]
        refine List.find?_congr fun header hmem => ?_
        obtain ⟨front, lead, -, hstart, -⟩ := exists_of_mem_headersFrom hmem
        have hnext : header.start - place = header.start - (place + 1) + 1 := by omega
        rw [hnext, List.getElem?_cons_succ]
      cases passed with
      | succ passed => exact hinside passed
      | zero =>
        rw [headerFrom?, headersFrom]
        cases if before.any isWordChar then none else header? (c :: rest) with
        | none => exact hinside 0
        | some found =>
          obtain ⟨name, after⟩ := found
          have hbegins : (code :: flags)[place - place]?.getD false = code := by
            rw [Nat.sub_self]
            rfl
          dsimp only
          rw [List.find?_cons, hbegins]
          cases code with
          | true => rfl
          | false => exact hinside _

def headers (text : List Char) : List Header :=
  headersFrom 0 0 none text

theorem findHeader?_eq_find? (text : List Char) :
    findHeader? text = (headers text).find? fun header => codeAt text header.start := by
  have hl : (codeFlags text).length = text.length := by
    rw [codeFlags, List.length_map, length_mark]
  rw [findHeader?, headerFrom?_eq_find? hl, headers]
  congr 1
  funext header
  rw [codeAt, codeFlags, List.getElem?_map, Nat.sub_zero]
  cases (mark .code text)[header.start]? <;> rfl

-- ---------------------------------------------------------------------------
-- The mask of the bytes
-- ---------------------------------------------------------------------------

/-- Where a header begins the mask has a flag, that of the character. -/
theorem codeFlags_units (h : header ∈ headers text) :
    (codeFlags (units text))[byteOffset text header.start]? = some (codeAt text header.start) := by
  obtain ⟨front, lead, ht, hstart, hlead⟩ := exists_of_mem_headersFrom h
  have hlt : header.start < (mark .code text).length := by
    have hpos := List.length_pos_iff.2 hlead
    rw [length_mark, hstart, ht]
    simp only [List.length_append]
    omega
  rw [codeFlags_byteOffset, codeFlags, List.getElem?_map, codeAt, List.getElem?_eq_getElem hlt]
  rfl

theorem findM?_eq_find? {α : Type} {test? : α → Option Bool} {test : α → Bool} {items : List α}
    (h : ∀ item ∈ items, test? item = some (test item)) :
    items.findM? test? = some (items.find? test) := by
  induction items with
  | nil => rfl
  | cons item items ih =>
    obtain ⟨hitem, hitems⟩ := List.forall_mem_cons.1 h
    rw [List.findM?, hitem, List.find?_cons, Option.bind_eq_bind, Option.bind_some, ih hitems]
    cases test item <;> rfl

-- ---------------------------------------------------------------------------
-- Parsing
-- ---------------------------------------------------------------------------

def Header.stop (text : List Char) (header : Header) : Nat :=
  text.length - header.rest.length

def parse? (text : List Char) : Option (Except Defect View) := do
  let mask ← codeMask? (units text)
  match ← (headers text).findM? fun header => mask[byteOffset text header.start]? with
  | none => return .error .noHeader
  | some header =>
    let start := byteOffset text header.start
    let stop := byteOffset text (header.stop text)
    let rest ← textFrom? stop text
    match ← readCtes? (trim rest) with
    | .error defect => return .error defect
    | .ok (ctes, body) =>
      let preamble ← textTo? start text
      let written ← slice? start stop text
      return .ok
        { name := String.ofList header.name
          preamble := String.ofList (trim preamble)
          header := String.ofList written
          ctes := ctes
          body := String.ofList body }

theorem parse?_eq (text : List Char) : parse? text = some (parse (String.ofList text)) := by
  have hsearch : (headers text).findM? (fun header =>
      (codeFlags (units text))[byteOffset text header.start]?) = some (findHeader? text) := by
    rw [findM?_eq_find? fun header hmem => codeFlags_units hmem, findHeader?_eq_find?]
  rw [parse?, codeMask?_eq, Option.bind_eq_bind, Option.bind_some, hsearch, parse_eq,
    String.toList_ofList, Option.bind_eq_bind, Option.bind_some]
  cases hfound : findHeader? text with
  | none => rfl
  | some header =>
    have hmem : header ∈ headers text := by
      rw [findHeader?_eq_find?] at hfound
      exact List.mem_of_find?_eq_some hfound
    obtain ⟨front, lead, ht, hstart, -⟩ := exists_of_mem_headersFrom hmem
    rw [Nat.zero_add] at hstart
    have hfront : text.take header.start = front := by rw [hstart, ht, List.take_left]
    have hlead : text.drop header.start = lead ++ header.rest := by
      rw [hstart, ht, List.drop_left]
    have hstop : text.take (header.stop text) = front ++ lead := by
      have hlength : header.stop text = (front ++ lead).length := by
        rw [Header.stop, ht, ← List.append_assoc, List.length_append, Nat.add_sub_cancel]
      rw [hlength, ht, ← List.append_assoc, List.take_left]
    have hbegin : byteSize front = byteOffset text header.start := by rw [byteOffset, hfront]
    have hend : byteOffset text header.start + byteSize lead =
        byteOffset text (header.stop text) := by
      rw [← hbegin, byteOffset, hstop, byteSize_append]
    have hrest : textFrom? (byteOffset text (header.stop text)) text = some header.rest :=
      textFrom?_eq_some_iff.2
        ⟨_, by rw [ht, List.append_assoc], congrArg byteSize hstop.symm⟩
    obtain ⟨result, hresult, hread⟩ :=
      Option.map_eq_some_iff.1 (readCtes?_eq (trim header.rest))
    dsimp only
    rw [hrest, Option.bind_eq_bind, Option.bind_some, hresult, Option.bind_eq_bind,
      Option.bind_some, viewBehind, ← hread, hfront, hlead, List.length_append,
      Nat.add_sub_cancel, List.take_left]
    cases result with
    | error defect => rfl
    | ok result =>
      dsimp only
      rw [textTo?_eq_some_iff.2 ⟨_, ht, hbegin⟩, slice?_eq_some_iff.2 ⟨_, _, ht, hbegin, hend⟩]
      rfl

end ViewRollout.View
