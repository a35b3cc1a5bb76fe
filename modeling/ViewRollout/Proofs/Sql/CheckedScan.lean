import Mathlib.Data.Nat.PSub
import ViewRollout.Proofs.Sql.ByteMarks

/-!
# Scanning with checked accesses

The scanner and the readers on it once more, byte by byte and offset by
offset, each access checked: a read or a write behind the end, a slice that
does not begin and end at characters, and a subtraction below zero give none.
None of them does that for any text: each gives what the lexer gives.
-/

namespace ViewRollout.Sql

open Text

variable {region : Region} {bytes front keyword text : List Char} {marks : List Marked}
variable {offset start : Nat}

/-- The bytes between two offsets; none when they are in the wrong order or out of range. -/
def between? (start stop : Nat) (bytes : List Char) : Option (List Char) :=
  if start ≤ stop ∧ stop ≤ bytes.length then some ((bytes.take stop).drop start) else none

theorem between?_append (front part back : List Char) :
    between? front.length (front.length + part.length) (front ++ part ++ back) = some part := by
  have hlength : (front ++ part).length = front.length + part.length := List.length_append
  rw [between?, if_pos (by simp only [List.length_append]; omega), ← hlength, List.take_left,
    List.drop_left]

-- ---------------------------------------------------------------------------
-- The scanner
-- ---------------------------------------------------------------------------

/-- The code among the bytes from an offset on, which is read from the region. -/
def scanFrom? (region : Region) (bytes : List Char) (offset : Nat) : Option (List (Nat × Char)) :=
  if _h : offset < bytes.length then do
    let c ← bytes[offset]?
    let (after, taken) := region.step c bytes[offset + 1]?
    let rest ← scanFrom? after bytes (offset + if taken then 2 else 1)
    return if region == .code && after == .code then (offset, c) :: rest else rest
  else some []
termination_by bytes.length - offset
decreasing_by exact Nat.sub_lt_sub_left _h (by split <;> omega)

/-- The code of a marked text, each character with its offset. -/
def codeIn (offset : Nat) (marks : List Marked) : List (Nat × Char) :=
  (marks.zipIdx offset).filterMap fun (marked, place) =>
    if marked.code then some (place, marked.char) else none

theorem codeIn_cons (marked : Marked) (marks : List Marked) :
    codeIn offset (marked :: marks) =
      if marked.code then (offset, marked.char) :: codeIn (offset + 1) marks
      else codeIn (offset + 1) marks := by
  rw [codeIn, List.zipIdx_cons, List.filterMap_cons]
  cases hc : marked.code <;> simp [hc, codeIn]

theorem scanFrom?_step {c : Char} {rest : List Char} {after : Region} {taken : Bool}
    (h : region.step c rest.head? = (after, taken)) :
    scanFrom? region (front ++ c :: rest) front.length =
      (scanFrom? after (front ++ c :: rest) (front.length + if taken then 2 else 1)).map
        fun code => if region == .code && after == .code then (front.length, c) :: code
          else code := by
  have hlt : front.length < (front ++ c :: rest).length := by
    rw [List.length_append, List.length_cons]
    omega
  have hc : (front ++ c :: rest)[front.length]? = some c := by
    rw [List.getElem?_append_right (Nat.le_refl _), Nat.sub_self, List.getElem?_cons_zero]
  have hnext : (front ++ c :: rest)[front.length + 1]? = rest.head? := by
    rw [List.getElem?_append_right (Nat.le_add_right _ 1), Nat.add_sub_cancel_left,
      List.getElem?_cons_succ, List.head?_eq_getElem?]
  rw [scanFrom?, dif_pos hlt, hc, hnext]
  simp only [Option.bind_eq_bind, Option.bind_some, h, Option.map_eq_bind]
  rfl

theorem scanFrom?_end (h : bytes.length ≤ offset) : scanFrom? region bytes offset = some [] := by
  rw [scanFrom?, dif_neg (Nat.not_lt_of_le h)]

theorem scanFrom?_append (region : Region) (front bytes : List Char) :
    scanFrom? region (front ++ bytes) front.length =
      some (codeIn front.length (mark region bytes)) := by
  fun_induction mark region bytes generalizing front with
  | case1 => exact scanFrom?_end (by simp)
  | case2 region c =>
    have hstep : region.step c ([] : List Char).head? = ((region.step c none).1, false) :=
      Prod.ext rfl (region.step_none_snd c)
    rw [scanFrom?_step hstep, scanFrom?_end (by simp), codeIn_cons]
    rfl
  | case3 region c d rest after h ih =>
    have hrest := ih (front ++ [c, d])
    have hstep : region.step c (d :: rest).head? = (after, true) := h
    rw [List.append_assoc, List.length_append] at hrest
    rw [scanFrom?_step hstep, Region.step_taken h, codeIn_cons, codeIn_cons]
    exact congrArg (Option.map _) hrest
  | case4 region c d rest after h ih =>
    have hrest := ih (front ++ [c])
    have hstep : region.step c (d :: rest).head? = (after, false) := h
    rw [List.append_assoc, List.length_append] at hrest
    rw [scanFrom?_step hstep, codeIn_cons]
    exact congrArg (Option.map _) hrest

/-- From any offset on, the scanner gives the code of the text from there on. -/
theorem scanFrom?_eq (bytes : List Char) (start : Nat) :
    scanFrom? .code bytes start = some (codeFrom bytes start) := by
  rcases Nat.le_total start bytes.length with h | h
  · have hscan := scanFrom?_append .code (bytes.take start) (bytes.drop start)
    rwa [List.take_append_drop, List.length_take, Nat.min_eq_left h] at hscan
  · rw [scanFrom?_end h, codeFrom, List.drop_of_length_le h]
    rfl

-- ---------------------------------------------------------------------------
-- Parentheses
-- ---------------------------------------------------------------------------

/-- The offset of the `)` that closes the outermost of the open groups, if one does. The depth,
how many groups are open, does not go below zero. -/
def matchIn? (depth : Nat) : List (Nat × Char) → Option (Option Nat)
  | [] => some none
  | (offset, c) :: rest =>
    if c = '(' then matchIn? (depth + 1) rest
    else if c = ')' then do
      let depth ← depth.ppred
      if depth = 0 then some (some offset) else matchIn? depth rest
    else matchIn? depth rest

/-- The `)` of the group whose `(` is just before the offset. -/
def matching? (bytes : List Char) (start : Nat) : Option (Except Defect Nat) := do
  let code ← scanFrom? .code bytes start
  let found ← matchIn? 1 code
  match found with
  | some close => some (.ok close)
  | none => some (.error (.unclosedParen (start - 1)))

theorem matchIn?_eq (depth : Nat) (marks : List Marked) :
    matchIn? (depth + 1) (codeIn offset marks) =
      some ((closing? depth marks).map (offset + ·)) := by
  induction marks generalizing depth offset with
  | nil => rfl
  | cons marked marks ih =>
    have hnext (place : Option Nat) : (place.map (· + 1)).map (offset + ·) =
        place.map (offset + 1 + ·) := by
      rw [Option.map_map]
      congr 1
      funext place
      simp only [Function.comp]
      omega
    obtain ⟨c, code⟩ := marked
    rw [codeIn_cons, closing?]
    cases code with
    | false =>
      rw [if_neg Bool.false_ne_true, depthAfter?_idle rfl rfl, ih]
      exact congrArg some (hnext _).symm
    | true =>
      rw [if_pos rfl, matchIn?]
      by_cases hopen : c = '('
      · rw [if_pos hopen, depthAfter?_opens (by simp [Marked.opens, hopen]), ih]
        exact congrArg some (hnext _).symm
      by_cases hclose : c = ')'
      · subst hclose
        rw [if_neg hopen, if_pos rfl, Nat.ppred_succ]
        cases depth with
        | zero => rfl
        | succ depth =>
          rw [depthAfter?_closes rfl]
          simp only [Option.bind_eq_bind, Option.bind_some, if_neg (Nat.succ_ne_zero depth), ih]
          exact congrArg some (hnext _).symm
      · rw [if_neg hopen, if_neg hclose, depthAfter?_idle (by simp [Marked.opens, hopen])
          (by simp [Marked.closes, hclose]), ih]
        exact congrArg some (hnext _).symm

theorem matching?_eq (bytes : List Char) (start : Nat) :
    matching? bytes start = some (closingParen bytes start) := by
  have hfound : matchIn? 1 (codeFrom bytes start) =
      some ((closing? 0 (mark .code (bytes.drop start))).map (start + ·)) :=
    matchIn?_eq 0 (mark .code (bytes.drop start))
  rw [matching?, scanFrom?_eq, Option.bind_eq_bind, Option.bind_some, hfound, closingParen]
  cases closing? 0 (mark .code (bytes.drop start)) <;> rfl

-- ---------------------------------------------------------------------------
-- Keywords
-- ---------------------------------------------------------------------------

/-- Whether an identifier goes up to the offset. -/
def identBefore? (bytes : List Char) (offset : Nat) : Option Bool :=
  if offset = 0 then some false
  else offset.ppred.bind fun before => bytes[before]?.map isIdent

/-- Whether the word stands at the offset as a whole identifier. The tests stop at the first one
that fails. -/
def wordAt? (word bytes : List Char) (offset : Nat) : Option Bool :=
  let stop := offset + word.length
  if bytes.length < stop then some false else do
  let here ← between? offset stop bytes
  if here.map Char.toLower ≠ word.map Char.toLower then some false else do
  let joined ← identBefore? bytes offset
  return !joined && !bytes[stop]?.any isIdent

def findKeyword? (keyword text : List Char) : Option (Option Nat) := do
  let code ← scanFrom? .code (units text) 0
  (code.map (·.1)).findM? (wordAt? (units keyword) (units text))

theorem beginsWith_split {word here back : List Char} (hm : marks.map (·.char) = here ++ back)
    (hl : here.length = word.length) :
    beginsWith word marks =
      (decide (here.map Char.toLower = word.map Char.toLower) && !back.head?.any isIdent) := by
  rw [Bool.eq_iff_iff, beginsWith_iff, Bool.and_eq_true, decide_eq_true_eq, Bool.not_eq_true']
  constructor
  · rintro ⟨own, rest, hown, hword, hrest⟩
    have hlength : own.length = here.length := by
      rw [hl, ← List.length_map Char.toLower, hword, List.length_map]
    obtain ⟨rfl, rfl⟩ := List.append_inj (hown.symm.trans hm) hlength
    exact ⟨hword, hrest⟩
  · rintro ⟨hword, hback⟩
    exact ⟨here, back, hm, hword, hback⟩

theorem identBefore?_append (front back : List Char) :
    identBefore? (front ++ back) front.length = some (front.getLast?.any isIdent) := by
  rcases List.eq_nil_or_concat front with rfl | ⟨front, c, rfl⟩
  · rfl
  · have hlength : (front.concat c).length = front.length + 1 := List.length_concat
    rw [identBefore?, if_neg (by omega), hlength, Nat.ppred_succ]
    simp

theorem wordAt?_append (word front : List Char) (marks : List Marked) :
    wordAt? word (front ++ marks.map (·.char)) front.length =
      some (!front.getLast?.any isIdent && beginsWith word marks) := by
  rw [wordAt?, identBefore?_append]
  by_cases hlt : (front ++ marks.map (·.char)).length < front.length + word.length
  · have hbegins : beginsWith word marks = false := by
      refine Bool.eq_false_iff.2 fun h => ?_
      obtain ⟨own, rest, hm, hword, -⟩ := beginsWith_iff.1 h
      have hown : own.length = word.length := by
        rw [← List.length_map Char.toLower, hword, List.length_map]
      simp only [hm, List.length_append] at hlt
      omega
    rw [if_pos hlt, hbegins, Bool.and_false]
  · obtain ⟨here, back, hm, hl⟩ : ∃ here back, marks.map (·.char) = here ++ back ∧
        here.length = word.length := by
      refine ⟨_, _, (List.take_append_drop word.length _).symm, List.length_take_of_le ?_⟩
      rw [List.length_append] at hlt
      omega
    have hstop : (front ++ here ++ back)[front.length + word.length]? = back.head? := by
      rw [← hl, ← List.length_append, List.getElem?_append_right (Nat.le_refl _), Nat.sub_self,
        List.head?_eq_getElem?]
    rw [if_neg hlt, beginsWith_split hm hl, hm, ← List.append_assoc, hstop, ← hl, between?_append]
    by_cases hword : here.map Char.toLower = word.map Char.toLower
    · simp [hword]
    · simp [hword]

theorem findM?_wordAt? (word front : List Char) (marks : List Marked) :
    ((codeIn front.length marks).map (·.1)).findM?
        (wordAt? word (front ++ marks.map (·.char))) =
      some ((keywordAfter? word front.getLast? marks).map (front.length + ·)) := by
  induction marks generalizing front with
  | nil => rfl
  | cons marked marks ih =>
    have hrest := ih (front ++ [marked.char])
    have hword := wordAt?_append word front (marked :: marks)
    have hbehind : (keywordAfter? word (some marked.char) marks).map (front.length + 1 + ·) =
        ((keywordAfter? word (some marked.char) marks).map (· + 1)).map (front.length + ·) := by
      rw [Option.map_map]
      congr 1
      funext place
      simp only [Function.comp]
      omega
    rw [List.append_assoc, List.length_append, List.getLast?_concat] at hrest
    simp only [List.length_singleton, List.singleton_append, hbehind] at hrest
    rw [List.map_cons] at hword ⊢
    obtain ⟨c, code⟩ := marked
    rw [codeIn_cons, keywordAfter?]
    cases code with
    | false => simpa using hrest
    | true =>
      rw [if_pos rfl, List.map_cons, List.findM?, hword, Option.bind_eq_bind, Option.bind_some,
        Bool.true_and]
      cases !front.getLast?.any isIdent && beginsWith word (⟨c, true⟩ :: marks) with
      | true => simp
      | false => simpa using hrest

theorem findKeyword?_eq (keyword text : List Char) :
    findKeyword? keyword text = some ((keywordPlace? keyword text).map (byteOffset text)) := by
  have hfind := findM?_wordAt? (units keyword) [] (mark .code (units text))
  rw [map_char_mark] at hfind
  rw [findKeyword?, scanFrom?_eq, Option.bind_eq_bind, Option.bind_some, ← keywordPlace?_units]
  refine hfind.trans ?_
  simp [keywordPlace?]

-- ---------------------------------------------------------------------------
-- The mask
-- ---------------------------------------------------------------------------

/-- The flags with the one at the place on; none when there is none there. -/
def setOn? (flags : List Bool) (place : Nat) : Option (List Bool) :=
  if place < flags.length then some (flags.set place true) else none

def codeMask? (bytes : List Char) : Option (List Bool) := do
  let code ← scanFrom? .code bytes 0
  (code.map (·.1)).foldlM setOn? (List.replicate bytes.length false)

theorem foldlM_setOn? (front : List Bool) (marks : List Marked) :
    ((codeIn front.length marks).map (·.1)).foldlM setOn?
        (front ++ List.replicate marks.length false) =
      some (front ++ marks.map (·.code)) := by
  induction marks generalizing front with
  | nil => simp [codeIn]
  | cons marked marks ih =>
    have hrest := ih (front ++ [marked.code])
    rw [List.append_assoc, List.append_assoc, List.length_append] at hrest
    rw [codeIn_cons, List.length_cons, List.replicate_succ, List.map_cons]
    cases hc : marked.code with
    | false => simpa [hc] using hrest
    | true =>
      have hset : setOn? (front ++ false :: List.replicate marks.length false) front.length =
          some (front ++ true :: List.replicate marks.length false) := by
        simp [setOn?]
      rw [if_pos rfl, List.map_cons, List.foldlM_cons, hset]
      simpa [hc] using hrest

theorem codeMask?_eq (bytes : List Char) : codeMask? bytes = some (codeFlags bytes) := by
  have hmask := foldlM_setOn? [] (mark .code bytes)
  rw [length_mark] at hmask
  rw [codeMask?, scanFrom?_eq, Option.bind_eq_bind, Option.bind_some]
  exact hmask

end ViewRollout.Sql
