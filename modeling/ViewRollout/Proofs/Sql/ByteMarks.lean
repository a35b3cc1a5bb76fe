import ViewRollout.Proofs.Sql.Balance
import ViewRollout.Proofs.Sql.Keyword
import ViewRollout.Proofs.Sql.Token
import ViewRollout.Proofs.Text.Offset

/-!
# Reading bytes

All that the lexer tells apart is ASCII, so a text read byte by byte is marked
as the text is, each byte like its character (`mark_units`). Keywords and
closing parentheses are then found in the bytes where they are found in the
text, at offsets in place of places.
-/

namespace ViewRollout.Sql

open Text

variable {region : Region} {text more keyword : List Char} {marks : List Marked}
variable {before other : Option Char} {c : Char} {depth place : Nat}

/-- The marks of a character's bytes. -/
def Marked.units (marked : Marked) : List Marked :=
  (charUnits marked.char).map (⟨·, marked.code⟩)

def offsetIn (marks : List Marked) (place : Nat) : Nat :=
  byteOffset (marks.map (·.char)) place

theorem offsetIn_mark (region : Region) (text : List Char) (place : Nat) :
    offsetIn (mark region text) place = byteOffset text place := by
  rw [offsetIn, map_char_mark]

theorem map_char_units (marks : List Marked) :
    (marks.flatMap Marked.units).map (·.char) = Text.units (marks.map (·.char)) := by
  rw [units_eq_flatMap, List.map_flatMap, List.flatMap_map]
  congr 1
  funext marked
  rw [Marked.units, List.map_map]
  exact List.map_id _

-- ---------------------------------------------------------------------------
-- Marks
-- ---------------------------------------------------------------------------

theorem Region.Reached.of_step {after : Region} {taken : Bool} (hr : region.Reached)
    (h : region.step c before = (after, taken)) : after.Reached := by
  have hreached := hr.step c before
  rwa [h] at hreached

/-- A character beyond ASCII leaves a reader where it is. -/
theorem step_of_high (hr : region.Reached) (hc : 0x80 ≤ c.toNat) (next : Option Char) :
    region.step c next = (region, false) :=
  step_of_isIdent hr (by simp [isIdent, hc]) next

/-- What a character does is decided by the first byte of the next one. -/
theorem step_units (region : Region) (c : Char) (text : List Char) :
    region.step c (Text.units text).head? = region.step c text.head? := by
  cases text with
  | nil => rfl
  | cons d rest =>
    obtain ⟨u, more, hu, hascii, hhigh⟩ := exists_charUnits d
    rw [units_cons, hu, List.cons_append, List.head?_cons, List.head?_cons]
    rcases Nat.lt_or_ge d.toNat 0x80 with hd | hd
    · rw [(hascii hd).1]
    · have hback {e : Char} (he : 0x80 ≤ e.toNat) : pairsBack e = false := by
        simp [pairsBack, ne_of_high he]
      exact Region.step_some_of_not_pairsBack (hback (hhigh hd).1) (hback hd) region c

theorem mark_of_high (hr : region.Reached) (hmore : ∀ u ∈ more, 0x80 ≤ u.toNat)
    (text : List Char) :
    mark region (more ++ text) = more.map (⟨·, region == .code⟩) ++ mark region text := by
  induction more with
  | nil => rfl
  | cons u more ih =>
    obtain ⟨hu, hmore⟩ := List.forall_mem_cons.1 hmore
    rw [List.cons_append, mark_cons (step_of_high hr hu _), ih hmore, Bool.and_self]
    rfl

theorem mark_charUnits {after : Region} (hr : region.Reached)
    (h : region.step c text.head? = (after, false)) :
    mark region (charUnits c ++ text) =
      (Marked.mk c (region == .code && after == .code)).units ++ mark after text := by
  rcases Nat.lt_or_ge c.toNat 0x80 with hc | hc
  · rw [Marked.units, charUnits_of_ascii hc, List.singleton_append, mark_cons h]
    rfl
  · obtain ⟨rfl, -⟩ := Prod.mk.inj (h.symm.trans (step_of_high hr hc _))
    rw [mark_of_high hr (fun u hu => le_of_mem_charUnits hc hu), Bool.and_self]
    rfl

theorem not_code_of_pair {after : Region} {d : Char} (h : region.step c (some d) = (after, true))
    (hd : 0x80 ≤ d.toNat) : (after == .code) = false := by
  have h₁ : d ≠ '-' := ne_of_high hd (by decide)
  have h₂ : d ≠ '*' := ne_of_high hd (by decide)
  have h₃ : d ≠ '/' := ne_of_high hd (by decide)
  cases region with
  | quoted quote =>
    rw [Region.step] at h
    split at h
    · cases h
      rfl
    · split at h <;> cases h
  | _ => simp [Region.step, h₁, h₂, h₃] at h <;> split at h <;> simp at h

/-- A backslash takes along one byte of the next character; the others are no code either. -/
theorem mark_pairUnits {after : Region} {d : Char} (hr : region.Reached)
    (h : region.step c (some d) = (after, true)) (text : List Char) :
    mark region (c :: (charUnits d ++ text)) =
      ⟨c, false⟩ :: (Marked.mk d false).units ++ mark after text := by
  obtain ⟨u, more, hu, hascii, hhigh⟩ := exists_charUnits d
  have hstep : region.step c (some u) = (after, true) := by
    have hfirst := step_units region c [d]
    rw [units_cons, hu] at hfirst
    exact hfirst.trans h
  rw [Marked.units, hu, List.cons_append, mark_pair hstep]
  rcases Nat.lt_or_ge d.toNat 0x80 with hd | hd
  · rw [(hascii hd).2]
    rfl
  · rw [mark_of_high (hr.of_step h) (hhigh hd).2, not_code_of_pair h hd]
    rfl

/-- The bytes of a text are marked as its characters are. -/
theorem mark_units (hr : region.Reached) (text : List Char) :
    mark region (Text.units text) = (mark region text).flatMap Marked.units := by
  fun_induction mark region text with
  | case1 => rfl
  | case2 region c =>
    have hstep : region.step c ([] : List Char).head? = ((region.step c none).1, false) :=
      Prod.ext rfl (region.step_none_snd c)
    rw [units_cons, show Text.units [] = [] from rfl, mark_charUnits hr hstep]
    rfl
  | case3 region c d rest after h ih =>
    have hc : c.toNat < 0x80 := by
      refine Nat.lt_of_not_le fun hc => ?_
      cases h.symm.trans (step_of_high hr hc _)
    rw [units_cons_of_ascii hc, units_cons, mark_pairUnits hr h, ih (hr.of_step h)]
    simp [Marked.units, charUnits_of_ascii hc]
  | case4 region c d rest after h ih =>
    have hstep := (step_units region c (d :: rest)).trans h
    rw [units_cons, mark_charUnits hr hstep, ih (hr.of_step h), List.flatMap_cons]

theorem mark_code_units (text : List Char) :
    mark .code (Text.units text) = (mark .code text).flatMap Marked.units :=
  mark_units (show Region.code.Reached from trivial) text

theorem units_of_ascii {marked : Marked} (h : marked.char.toNat < 0x80) :
    marked.units = [marked] := by
  rw [Marked.units, charUnits_of_ascii h]
  rfl

theorem length_units_marked (marked : Marked) : marked.units.length = marked.char.utf8Size := by
  rw [Marked.units, List.length_map, length_charUnits]

theorem high_of_mem_units {marked m : Marked} (h : 0x80 ≤ marked.char.toNat)
    (hm : m ∈ marked.units) : 0x80 ≤ m.char.toNat := by
  obtain ⟨u, hu, rfl⟩ := List.mem_map.1 hm
  exact le_of_mem_charUnits h hu

theorem offsetIn_succ (marked : Marked) (marks : List Marked) (place : Nat) :
    offsetIn (marked :: marks) (place + 1) = marked.char.utf8Size + offsetIn marks place := rfl

theorem code_flatMap_units (marks : List Marked) (place : Nat) :
    (marks.flatMap Marked.units)[offsetIn marks place]?.map (·.code) =
      marks[place]?.map (·.code) := by
  induction marks generalizing place with
  | nil => rfl
  | cons marked marks ih =>
    cases place with
    | zero =>
      obtain ⟨u, more, hu, -⟩ := exists_charUnits marked.char
      rw [List.flatMap_cons, Marked.units, hu]
      rfl
    | succ place =>
      rw [List.flatMap_cons, offsetIn_succ, ← length_units_marked,
        List.getElem?_append_right (Nat.le_add_right ..), Nat.add_sub_cancel_left, ih,
        List.getElem?_cons_succ]

theorem codeFlags_eq_true_iff :
    (codeFlags text)[place]? = some true ↔ (mark .code text)[place]?.any (·.code) = true := by
  rw [codeFlags, List.getElem?_map]
  cases (mark .code text)[place]? <;> simp

/-- The first byte of a character is code when the character is. -/
theorem codeFlags_byteOffset (text : List Char) (place : Nat) :
    (codeFlags (Text.units text))[byteOffset text place]? = (codeFlags text)[place]? := by
  rw [codeFlags, codeFlags, mark_code_units, List.getElem?_map, List.getElem?_map,
    ← offsetIn_mark .code, code_flatMap_units]

-- ---------------------------------------------------------------------------
-- Closing parentheses
-- ---------------------------------------------------------------------------

theorem closing?_units (depth : Nat) (marks : List Marked) :
    closing? depth (marks.flatMap Marked.units) =
      (closing? depth marks).map (offsetIn marks) := by
  induction marks generalizing depth with
  | nil => rfl
  | cons marked marks ih =>
    have hstep (result : Option Nat) :
        (result.map (offsetIn marks)).map (marked.char.utf8Size + ·) =
          (result.map (· + 1)).map (offsetIn (marked :: marks)) := by
      rw [Option.map_map, Option.map_map]
      rfl
    rw [List.flatMap_cons]
    rcases Nat.lt_or_ge marked.char.toNat 0x80 with hc | hc
    · rw [units_of_ascii hc, List.singleton_append, closing?, closing?]
      cases depthAfter? depth marked with
      | none => rfl
      | some inner =>
        dsimp only
        rw [ih, ← hstep, utf8Size_of_ascii hc]
        simp only [Nat.add_comm 1]
    · have hno (m : Marked) (hm : 0x80 ≤ m.char.toNat) : m.char ≠ '(' ∧ m.char ≠ ')' :=
        ⟨ne_of_high hm (by decide), ne_of_high hm (by decide)⟩
      have hidle : depthAfter? depth marked = some depth :=
        depthAfter?_idle (by simp [Marked.opens, (hno marked hc).1])
          (by simp [Marked.closes, (hno marked hc).2]) depth
      have hover : depthOver? depth marked.units = some depth :=
        depthOver?_of_no_paren (fun m hm => hno m (high_of_mem_units hc hm)) depth
      rw [closing?_append_of_depthOver? hover, ih, length_units_marked, hstep, closing?, hidle]

/-- A group that opens in a text is closed in the bytes where it is closed in the text. -/
theorem closingParen_units (front inner : List Char) :
    closingParen (Text.units (front ++ '(' :: inner)) (byteSize front + 1) =
      match closing? 0 (mark .code inner) with
      | some place => .ok (byteSize front + 1 + byteOffset inner place)
      | none => .error (.unclosedParen (byteSize front)) := by
  rw [units_append, units_cons_of_ascii (by decide), ← length_units, closingParen_append,
    mark_code_units, closing?_units]
  cases closing? 0 (mark .code inner) with
  | none => rfl
  | some place => rw [Option.map_some, offsetIn_mark]

-- ---------------------------------------------------------------------------
-- Keywords
-- ---------------------------------------------------------------------------

theorem bytewise_isIdent : Bytewise isIdent :=
  bytewise_of_high (b := true) fun c hc => by simp [isIdent, hc]

theorem beginsWith_units (keyword : List Char) (marks : List Marked) :
    beginsWith (Text.units keyword) (marks.flatMap Marked.units) = beginsWith keyword marks := by
  rw [Bool.eq_iff_iff, beginsWith_iff, beginsWith_iff, map_char_units]
  generalize marks.map (·.char) = text
  constructor
  · rintro ⟨word, back, htext, hword, hback⟩
    rw [map_toLower_units] at hword
    have hlower := congrArg (List.map Char.toLower) htext
    rw [map_toLower_units, List.map_append, hword] at hlower
    obtain ⟨lower, hlower, hbackLower⟩ := exists_of_units_append hlower
    obtain ⟨own, rest, rfl, hown, rfl⟩ := List.map_eq_append_iff.1 hlower
    rw [units_append] at htext
    have hlength : (Text.units own).length = word.length := by
      have hlower := congrArg List.length (map_toLower_units own)
      rw [hown, ← hword] at hlower
      simpa using hlower
    obtain ⟨rfl, rfl⟩ := List.append_inj htext hlength
    refine ⟨own, rest, rfl, hown, ?_⟩
    rwa [any_head?_units bytewise_isIdent] at hback
  · rintro ⟨word, back, rfl, hword, hback⟩
    refine ⟨Text.units word, Text.units back, units_append word back, ?_, ?_⟩
    · rw [map_toLower_units, map_toLower_units, hword]
    · rwa [any_head?_units bytewise_isIdent]

theorem keywordAfter?_congr (h : before.any isIdent = other.any isIdent) :
    keywordAfter? keyword before marks = keywordAfter? keyword other marks := by
  cases marks with
  | nil => rfl
  | cons marked marks => rw [keywordAfter?, keywordAfter?, h]

/-- No keyword begins between the bytes of a character. -/
theorem keywordAfter?_of_high {code : Bool} (hmore : ∀ u ∈ more, 0x80 ≤ u.toNat)
    (h : before.any isIdent = true) (marks : List Marked) :
    keywordAfter? keyword before (more.map (⟨·, code⟩) ++ marks) =
      (keywordAfter? keyword before marks).map (more.length + ·) := by
  induction more generalizing before with
  | nil => simp
  | cons u more ih =>
    obtain ⟨hu, hmore⟩ := List.forall_mem_cons.1 hmore
    have hident : (some u).any isIdent = true := by simp [isIdent, hu]
    rw [List.map_cons, List.cons_append, keywordAfter?, h, Bool.not_true, Bool.and_false,
      Bool.false_and, if_neg Bool.false_ne_true, ih hmore hident, Option.map_map,
      keywordAfter?_congr (hident.trans h.symm)]
    congr 1
    funext place
    simp only [Function.comp, List.length_cons]
    omega

theorem keywordAfter?_units (h : before.any isIdent = other.any isIdent) :
    keywordAfter? (Text.units keyword) before (marks.flatMap Marked.units) =
      (keywordAfter? keyword other marks).map (offsetIn marks) := by
  induction marks generalizing before other with
  | nil => rfl
  | cons marked marks ih =>
    have hbegins := beginsWith_units keyword (marked :: marks)
    obtain ⟨u, more, hu, hascii, hhigh⟩ := exists_charUnits marked.char
    have hunits : (marked :: marks).flatMap Marked.units =
        ⟨u, marked.code⟩ :: (more.map (⟨·, marked.code⟩) ++ marks.flatMap Marked.units) := by
      rw [List.flatMap_cons, Marked.units, hu]
      rfl
    rw [hunits] at hbegins
    rw [hunits, keywordAfter?, keywordAfter?, hbegins, h]
    split
    · rfl
    · have hsize : marked.char.utf8Size = more.length + 1 := by
        rw [← length_charUnits, hu, List.length_cons]
      have hident : (some u).any isIdent = (some marked.char).any isIdent :=
        bytewise_isIdent marked.char u (hu ▸ List.mem_cons_self ..)
      have hrest : keywordAfter? (Text.units keyword) (some u)
          (more.map (⟨·, marked.code⟩) ++ marks.flatMap Marked.units) =
            (keywordAfter? keyword (some marked.char) marks).map
              (more.length + offsetIn marks ·) := by
        rcases Nat.lt_or_ge marked.char.toNat 0x80 with hc | hc
        · rw [(hascii hc).2, List.map_nil, List.nil_append, ih hident]
          simp
        · have hu' : (some u).any isIdent = true := by simp [isIdent, (hhigh hc).1]
          rw [keywordAfter?_of_high (hhigh hc).2 hu', ih hident, Option.map_map]
          rfl
      rw [hrest, Option.map_map, Option.map_map]
      congr 1
      funext place
      simp only [Function.comp, offsetIn_succ, hsize]
      omega

theorem keywordPlace?_units (keyword text : List Char) :
    keywordPlace? (Text.units keyword) (Text.units text) =
      (keywordPlace? keyword text).map (byteOffset text) := by
  rw [keywordPlace?, mark_code_units, keywordAfter?_units rfl, keywordPlace?]
  congr 1
  funext place
  exact offsetIn_mark .code text place

end ViewRollout.Sql
