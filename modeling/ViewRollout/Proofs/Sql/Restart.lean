import ViewRollout.Proofs.Sql.CheckedScan
import ViewRollout.Proofs.Sql.Token

/-!
# Scans begun anew

A scanner that is begun at a place takes it for code, while one that comes
from the front of the text carries its region along and may pass over two
characters at once. Both go on alike where the latter stands in code between
two turns. It does so before every character that it yields and right behind
it (`Restarts.comesTo`), so a scan can be begun anew there, in the text
(`ComesTo.scan_eq`) or in what is left of it (`scan_drop`).
-/

namespace ViewRollout.Sql

/-- What a scanner yields until its text is exhausted, each character with its place, and the region
in which it stands then. -/
structure Scan where
  code : List (Nat × Char)
  region : Region
  deriving DecidableEq, Repr

def Scan.prepend (front : List (Nat × Char)) (s : Scan) : Scan :=
  { s with code := front ++ s.code }

/-- A scan of what stands behind `place` characters, by the places of the whole text. -/
def Scan.behind (place : Nat) (s : Scan) : Scan :=
  { s with code := s.code.map fun found => (place + found.1, found.2) }

/-- What a scanner of the text yields from the place on, which it reads from the region. It makes
its turns in the whole text and so looks at the character behind the one that it stands at. -/
def scan (text : List Char) (region : Region) (place : Nat) : Scan :=
  if _h : place < text.length then
    let turn := region.step text[place] text[place + 1]?
    (scan text turn.1 (place + if turn.2 then 2 else 1)).prepend
      (if region == .code && turn.1 == .code then [(place, text[place])] else [])
  else ⟨[], region⟩
termination_by text.length - place
decreasing_by exact Nat.sub_lt_sub_left _h (by split <;> omega)

/-- A scan of the text can be begun anew at the place: the scan of the whole text yields the
character there or the one right before it. -/
def Restarts (text : List Char) (place : Nat) : Prop :=
  ∃ found ∈ codeFrom text 0, place = found.1 ∨ place = found.1 + 1

variable {text front : List Char} {region after : Region} {taken : Bool} {c : Char}
variable {place start : Nat} {found : Nat × Char}

-- ---------------------------------------------------------------------------
-- Turns
-- ---------------------------------------------------------------------------

theorem Scan.prepend_prepend (a b : List (Nat × Char)) (s : Scan) :
    (s.prepend b).prepend a = s.prepend (a ++ b) :=
  congrArg (Scan.mk · s.region) (List.append_assoc ..).symm

theorem scan_end (h : text.length ≤ place) : scan text region place = ⟨[], region⟩ := by
  rw [scan, dif_neg (Nat.not_lt_of_le h)]

theorem scan_turn (hc : text[place]? = some c)
    (h : region.step c text[place + 1]? = (after, taken)) :
    scan text region place = (scan text after (place + if taken then 2 else 1)).prepend
      (if region == .code && after == .code then [(place, c)] else []) := by
  obtain ⟨hlt, rfl⟩ := List.getElem?_eq_some_iff.1 hc
  rw [scan, dif_pos hlt]
  simp only [h]

theorem scan_cons {rest : List Char} (h : region.step c rest.head? = (after, taken)) :
    scan (front ++ c :: rest) region front.length =
      (scan (front ++ c :: rest) after (front.length + if taken then 2 else 1)).prepend
        (if region == .code && after == .code then [(front.length, c)] else []) := by
  refine scan_turn (by simp) ?_
  rw [List.getElem?_append_right (Nat.le_add_right _ 1), Nat.add_sub_cancel_left,
    List.getElem?_cons_succ, ← List.head?_eq_getElem?, h]

theorem prepend_marked (marked : Marked) (marks : List Marked) (region : Region) (place : Nat) :
    Scan.prepend (if marked.code then [(place, marked.char)] else [])
      ⟨codeIn (place + 1) marks, region⟩ = ⟨codeIn place (marked :: marks), region⟩ := by
  rw [codeIn_cons]
  cases marked.code <;> rfl

/-- A scanner yields the characters that are marked as code, and goes through the same regions as
the reader that marks them. -/
theorem scan_append (region : Region) (front text : List Char) :
    scan (front ++ text) region front.length =
      ⟨codeIn front.length (mark region text), finish region text⟩ := by
  fun_induction mark region text generalizing front with
  | case1 => exact scan_end (by simp)
  | case2 region c =>
    have hstep : region.step c ([] : List Char).head? = ((region.step c none).1, false) :=
      Prod.ext rfl (region.step_none_snd c)
    rw [scan_cons hstep, scan_end (by simp)]
    exact prepend_marked ⟨c, _⟩ [] _ _
  | case3 region c d rest after h ih =>
    have hrest := ih (front ++ [c, d])
    have hstep : region.step c (d :: rest).head? = (after, true) := h
    rw [List.append_assoc, List.length_append] at hrest
    rw [scan_cons hstep, Region.step_taken h, finish_pair h, codeIn_cons, codeIn_cons]
    exact hrest
  | case4 region c d rest after h ih =>
    have hrest := ih (front ++ [c])
    have hstep : region.step c (d :: rest).head? = (after, false) := h
    rw [List.append_assoc, List.length_append] at hrest
    rw [scan_cons hstep, finish_cons hstep, ← prepend_marked]
    exact congrArg (Scan.prepend _) hrest

/-- From any place on, a scanner yields the code of the text from there on and ends as its reader
does. -/
theorem scan_eq (text : List Char) (start : Nat) :
    scan text .code start = ⟨codeFrom text start, finish .code (text.drop start)⟩ := by
  rcases Nat.le_total start text.length with h | h
  · have hscan := scan_append .code (text.take start) (text.drop start)
    rwa [List.take_append_drop, List.length_take, Nat.min_eq_left h] at hscan
  · rw [scan_end h, codeFrom, List.drop_of_length_le h]
    rfl

-- ---------------------------------------------------------------------------
-- What is left of a text
-- ---------------------------------------------------------------------------

theorem codeFrom_eq_map (text : List Char) (place : Nat) :
    codeFrom text place =
      (codeFrom (text.drop place) 0).map fun found => (place + found.1, found.2) := by
  rw [codeFrom, codeFrom, List.drop_zero, List.zipIdx_eq_map_add, List.filterMap_map,
    List.map_filterMap]
  congr 1
  funext found
  cases hc : found.1.code <;> simp [hc]

theorem scan_drop (text : List Char) (place : Nat) :
    (scan (text.drop place) .code 0).behind place = scan text .code place := by
  rw [scan_eq, scan_eq, List.drop_zero, Scan.behind, ← codeFrom_eq_map]

theorem le_of_mem_codeFrom (h : found ∈ codeFrom text start) : start ≤ found.1 := by
  rw [codeFrom_eq_map] at h
  obtain ⟨_, -, rfl⟩ := List.mem_map.1 h
  exact Nat.le_add_right ..

-- ---------------------------------------------------------------------------
-- Between two turns
-- ---------------------------------------------------------------------------

/-- The scan that begins at `start` in the region comes to the place in code: it yields what lies
before, and then all that a scan yields which begins there. -/
structure ComesTo (text : List Char) (region : Region) (start place : Nat) : Prop where
  le : start ≤ place
  goes_on : ∃ front, scan text region start = (scan text .code place).prepend front ∧
    ∀ found ∈ front, found.1 < place

theorem ComesTo.here (text : List Char) (place : Nat) : ComesTo text .code place place :=
  ⟨Nat.le_refl place, [], rfl, nofun⟩

theorem ComesTo.turn {passed : List (Nat × Char)} {next : Nat}
    (hnext : ComesTo text after next place)
    (h : scan text region start = (scan text after next).prepend passed) (hlt : start < next)
    (hpassed : ∀ found ∈ passed, found.1 = start) : ComesTo text region start place := by
  obtain ⟨front, hfront, hbefore⟩ := hnext.goes_on
  have hplace := Nat.lt_of_lt_of_le hlt hnext.le
  refine ⟨Nat.le_of_lt hplace, passed ++ front, ?_, fun found hf => ?_⟩
  · rw [h, hfront, Scan.prepend_prepend]
  · rcases List.mem_append.1 hf with hf | hf
    · exact hpassed found hf ▸ hplace
    · exact hbefore found hf

/-- A scanner stands in code before each character that it yields. -/
theorem comesTo_of_mem (h : (place, c) ∈ (scan text region start).code) :
    ComesTo text region start place := by
  fun_induction scan text region start with
  | case1 region start hlt turn ih =>
    -- Only a turn out of code into code yields a character, the one at which it is made.
    have hturn : scan text region start = _ := scan_turn (List.getElem?_eq_getElem hlt) rfl
    rcases List.mem_append.1 h with hhere | hbehind
    · obtain ⟨hcode, hfound⟩ := List.mem_ite_nil_right.1 hhere
      cases List.mem_singleton.1 hfound
      obtain rfl : region = .code := eq_of_beq (Bool.and_eq_true_iff.1 hcode).1
      exact .here text place
    · refine (ih hbehind).turn hturn (by split <;> omega) fun found hf => ?_
      rw [List.mem_singleton.1 (List.mem_ite_nil_right.1 hf).2]
  | case2 => cases h

/-- Behind a character that is yielded, a scanner stands in code too, for such a character is passed
over on its own. -/
theorem scan_of_yield (h : (place, c) ∈ (scan text .code place).code) :
    scan text .code place = (scan text .code (place + 1)).prepend [(place, c)] := by
  have hlt : place < text.length := by
    refine Nat.lt_of_not_le fun hle => ?_
    rw [scan_end hle] at h
    cases h
  obtain ⟨⟨after, taken⟩, hstep⟩ : ∃ turn, Region.code.step text[place] text[place + 1]? = turn :=
    ⟨_, rfl⟩
  have hturn := scan_turn (List.getElem?_eq_getElem hlt) hstep
  rw [hturn] at h ⊢
  rcases List.mem_append.1 h with hhere | hbehind
  · -- No turn that takes two characters at once stays in code.
    obtain ⟨hcode, hfound⟩ := List.mem_ite_nil_right.1 hhere
    obtain rfl : after = .code := eq_of_beq (Bool.and_eq_true_iff.1 hcode).2
    have htaken : taken = false := by
      refine Bool.eq_false_iff.2 fun ht => ?_
      rw [Region.step_taken (ht ▸ hstep)] at hcode
      cases hcode
    rw [htaken, if_pos hcode, ← List.mem_singleton.1 hfound]
    rfl
  · have hle := (comesTo_of_mem hbehind).le
    split at hle <;> omega

theorem ComesTo.behind (h : ComesTo text region start place)
    (hc : (place, c) ∈ (scan text .code place).code) : ComesTo text region start (place + 1) := by
  obtain ⟨front, hfront, hbefore⟩ := h.goes_on
  refine ⟨Nat.le_succ_of_le h.le, front ++ [(place, c)], ?_, fun found hf => ?_⟩
  · rw [hfront, scan_of_yield hc, Scan.prepend_prepend]
  · rcases List.mem_append.1 hf with hf | hf
    · exact Nat.lt_succ_of_lt (hbefore found hf)
    · rw [List.mem_singleton.1 hf]
      exact Nat.lt_succ_self place

theorem Restarts.comesTo (h : Restarts text place) : ComesTo text .code 0 place := by
  obtain ⟨⟨first, c⟩, hfound, hplace⟩ := h
  have hmem : (first, c) ∈ (scan text .code 0).code := by rwa [scan_eq]
  have hfirst := comesTo_of_mem hmem
  rcases hplace with rfl | rfl
  · exact hfirst
  · obtain ⟨front, hfront, hbefore⟩ := hfirst.goes_on
    rw [hfront] at hmem
    refine hfirst.behind ((List.mem_append.1 hmem).resolve_left fun hf => ?_)
    exact Nat.lt_irrefl first (hbefore _ hf)

-- ---------------------------------------------------------------------------
-- Begun anew
-- ---------------------------------------------------------------------------

/-- A scan begun where the scan of the whole text comes to yields what that one yields from there on
and ends where that one ends. -/
theorem ComesTo.scan_eq (h : ComesTo text .code 0 place) :
    scan text .code place =
      ⟨(codeFrom text 0).filter (place ≤ ·.1), finish .code text⟩ := by
  obtain ⟨front, hfront, hbefore⟩ := h.goes_on
  rw [Sql.scan_eq, List.drop_zero, Sql.scan_eq] at hfront
  obtain ⟨hcode, hfinish⟩ := Scan.mk.inj hfront
  have hfirst : front.filter (place ≤ ·.1) = [] :=
    List.filter_eq_nil_iff.2 fun found hf => by simpa using hbefore found hf
  have hrest : (codeFrom text place).filter (place ≤ ·.1) = codeFrom text place :=
    List.filter_eq_self.2 fun found hf => by simpa using le_of_mem_codeFrom hf
  rw [Sql.scan_eq, hcode, hfinish, List.filter_append, hfirst, hrest]
  rfl

end ViewRollout.Sql
