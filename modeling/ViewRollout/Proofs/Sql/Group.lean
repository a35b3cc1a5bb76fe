import ViewRollout.Sql.Paren
import ViewRollout.Proofs.Sql.Cursor

/-!
# Groups in parentheses

What closes a group is decided by the text up to there and by nothing behind
it, so a group read on its own is the same group inside a longer text. A text
whose code is balanced leaves as many groups open as it found.
-/

namespace ViewRollout.Sql

-- ---------------------------------------------------------------------------
-- Depth
-- ---------------------------------------------------------------------------

/-- How many groups stand open after a marked text when so many did before; none when the text
closes the group it is read in. -/
def depthOver? (depth : Nat) : List Marked → Option Nat
  | [] => some depth
  | marked :: rest => (depthAfter? depth marked).bind (depthOver? · rest)

theorem depthOver?_append (depth : Nat) (a b : List Marked) :
    depthOver? depth (a ++ b) = (depthOver? depth a).bind (depthOver? · b) := by
  induction a generalizing depth with
  | nil => rfl
  | cons marked a ih =>
    simp only [List.cons_append, depthOver?]
    cases depthAfter? depth marked with
    | none => rfl
    | some depth => exact ih depth

theorem closing?_append_of_depthOver? (h : depthOver? depth a = some left) (b : List Marked) :
    closing? depth (a ++ b) = (closing? left b).map (a.length + ·) := by
  induction a generalizing depth with
  | nil => cases h; simp
  | cons marked a ih =>
    simp only [depthOver?] at h
    cases hd : depthAfter? depth marked with
    | none => simp [hd] at h
    | some inner =>
      rw [hd] at h
      simp only [List.cons_append, closing?, hd, ih h, Option.map_map]
      congr 1
      funext place
      simp only [Function.comp, List.length_cons]
      omega

theorem closing?_append_of_some (h : closing? depth a = some place) (b : List Marked) :
    closing? depth (a ++ b) = some place := by
  induction a generalizing depth place with
  | nil => cases h
  | cons marked a ih =>
    simp only [closing?] at h
    simp only [List.cons_append, closing?]
    cases hd : depthAfter? depth marked with
    | none => simpa [hd] using h
    | some inner =>
      simp only [hd, Option.map_eq_some_iff] at h
      obtain ⟨within, hw, rfl⟩ := h
      simp [ih hw]

theorem depthAfter?_eq_none_iff :
    depthAfter? depth marked = none ↔ depth = 0 ∧ marked = ⟨')', true⟩ := by
  obtain ⟨c, code⟩ := marked
  simp only [depthAfter?, Bool.and_eq_true, beq_iff_eq, Marked.mk.injEq]
  constructor
  · intro h
    split at h
    · cases h
    · split at h
      · rename_i hc
        cases depth with
        | zero => exact ⟨rfl, hc.2, hc.1⟩
        | succ depth => cases h
      · cases h
  · rintro ⟨rfl, rfl, rfl⟩
    rfl

/-- The character that closes a group is a `)` of the code, and up to it every other group that
was opened is closed. -/
theorem closing?_eq_some_iff :
    closing? depth marks = some place ↔
      depthOver? depth (marks.take place) = some 0 ∧ marks[place]? = some ⟨')', true⟩ := by
  induction marks generalizing depth place with
  | nil => simp [closing?]
  | cons marked rest ih =>
    simp only [closing?]
    cases place with
    | zero =>
      simp only [List.take_zero, depthOver?, List.getElem?_cons_zero, Option.some.injEq]
      rw [← depthAfter?_eq_none_iff]
      cases depthAfter? depth marked <;> simp
    | succ place =>
      simp only [List.take_succ_cons, depthOver?, List.getElem?_cons_succ]
      cases hd : depthAfter? depth marked with
      | none => simp
      | some inner => simp [ih]

/-- Nothing behind the place that closes a group has a say in it. -/
theorem closing?_marks_take_append {s : Cursor}
    (h : closing? depth (s.marks none text) = some place) (rest : List Char) :
    closing? depth (s.marks none (text.take (place + 1) ++ rest)) = some place := by
  obtain ⟨hd, hp⟩ := closing?_eq_some_iff.1 h
  have hc : text[place]? = some ')' := by
    have := congrArg (Option.map (·.char)) hp
    rwa [← List.getElem?_map, Cursor.map_char_marks] at this
  have ht : text.take (place + 1) = text.take place ++ [')'] := by
    rw [List.take_add_one, hc]
    rfl
  have hlt : place < text.length := (List.getElem?_eq_some_iff.1 hc).1
  have hs : s.marks none text =
      s.marks none (text.take (place + 1)) ++
        (s.after (text.drop (place + 1)).head? (text.take (place + 1))).marks none
          (text.drop (place + 1)) := by
    conv => lhs; rw [← List.take_append_drop (place + 1) text]
    rw [Cursor.marks_append, Option.or_none, ht, Cursor.marks_concat (by decide)]
  rw [Cursor.marks_append, Option.or_none, ht, Cursor.marks_concat (by decide), ← ht]
  refine closing?_append_of_some (closing?_eq_some_iff.2 ?_) _
  have hl : place < (s.marks none (text.take (place + 1))).length := by
    simp only [Cursor.length_marks, List.length_take]
    omega
  rw [hs] at hd hp
  rw [List.take_append_of_le_length (by omega)] at hd
  rw [List.getElem?_append_left hl] at hp
  exact ⟨hd, hp⟩

-- ---------------------------------------------------------------------------
-- Groups
-- ---------------------------------------------------------------------------

variable {inner : List Char}

/-- What follows a `(` and ends with the `)` that closes it. -/
def ClosesAtEnd (inner : List Char) : Prop :=
  ∃ place, closing? 0 (mark .code inner) = some place ∧ place + 1 = inner.length

theorem group?_append (h : ClosesAtEnd inner) (rest : List Char) :
    group? (inner ++ rest) = some (inner, rest) := by
  obtain ⟨place, hp, hl⟩ := h
  rw [mark_code] at hp
  have hc := closing?_marks_take_append hp rest
  rw [hl, List.take_length] at hc
  rw [group?, closingFrom?_eq, mark_code, hc, Option.map_some, hl, List.take_left, List.drop_left]

theorem ClosesAtEnd.getLast? (h : ClosesAtEnd inner) : inner.getLast? = some ')' := by
  obtain ⟨place, hp, hl⟩ := h
  have hm := (closing?_eq_some_iff.1 hp).2
  have hc := congrArg (Option.map (·.char)) hm
  rw [← List.getElem?_map, map_char_mark] at hc
  rw [List.getLast?_eq_getElem?, ← hl]
  exact hc

theorem closesAtEnd_of_group? (h : group? (inner ++ rest) = some (inner, rest)) :
    ClosesAtEnd inner := by
  rw [group?, closingFrom?_eq, Option.map_eq_some_iff] at h
  obtain ⟨place, hp, hg⟩ := h
  have htake : (inner ++ rest).take (place + 1) = inner := (Prod.mk.inj hg).1
  have hlt : place < (inner ++ rest).length := by
    rw [← length_mark .code]
    exact (List.getElem?_eq_some_iff.1 (closing?_eq_some_iff.1 hp).2).1
  have hlen := congrArg List.length htake
  rw [List.length_take] at hlen
  rw [mark_code] at hp
  have hc := closing?_marks_take_append hp []
  rw [htake, List.append_nil, ← mark_code] at hc
  exact ⟨place, hc, by omega⟩

theorem closingParen_eq_ok_iff :
    closingParen ('(' :: inner) 1 = .ok inner.length ↔ ClosesAtEnd inner := by
  simp only [closingParen, List.drop_succ_cons, List.drop_zero]
  constructor
  · intro h
    split at h
    · rename_i place hp
      refine ⟨place, hp, ?_⟩
      have : 1 + place = inner.length := Except.ok.inj h
      omega
    · cases h
  · rintro ⟨place, hp, hl⟩
    rw [hp]
    exact congrArg Except.ok (by omega)

theorem closingParen_append (front inner : List Char) :
    closingParen (front ++ '(' :: inner) (front.length + 1) =
      match closing? 0 (mark .code inner) with
      | some place => .ok (front.length + 1 + place)
      | none => .error (.unclosedParen front.length) := by
  have hd : (front ++ '(' :: inner).drop (front.length + 1) = inner := by
    rw [← List.drop_drop, List.drop_left]
    rfl
  rw [closingParen, hd]
  rfl

theorem group?_eq_some_iff : group? (inner ++ rest) = some (inner, rest) ↔
    ∃ place, closingParen (front ++ '(' :: (inner ++ rest)) (front.length + 1) = .ok place ∧
      place + 1 = (front ++ '(' :: inner).length := by
  have hlen : (front ++ '(' :: inner).length = front.length + 1 + inner.length := by
    rw [List.length_append, List.length_cons, Nat.add_assoc, Nat.add_comm 1]
  rw [closingParen_append, group?, closingFrom?_eq, hlen]
  cases hc : closing? 0 (mark .code (inner ++ rest)) with
  | none => simp
  | some place =>
    have hlt : place < (inner ++ rest).length := by
      have hp := (closing?_eq_some_iff.1 hc).2
      rw [← length_mark .code]
      exact (List.getElem?_eq_some_iff.1 hp).1
    simp only [Option.map_some, Option.some.injEq, Prod.mk.injEq, Except.ok.injEq, exists_eq_left']
    constructor
    · rintro ⟨htake, -⟩
      have hl := congrArg List.length htake
      rw [List.length_take] at hl
      omega
    · intro hp
      have hl : inner.length = place + 1 := by omega
      exact ⟨List.take_left' hl, List.drop_left' hl⟩

theorem group?_eq_none_iff : group? inner = none ↔
    ∀ place, closingParen (front ++ '(' :: inner) (front.length + 1) ≠ .ok place := by
  rw [closingParen_append, group?, closingFrom?_eq]
  cases closing? 0 (mark .code inner) <;> simp

end ViewRollout.Sql
