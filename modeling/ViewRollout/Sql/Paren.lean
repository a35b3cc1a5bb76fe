import ViewRollout.Sql.Lexer
import ViewRollout.Sql.Defect

/-!
# Matching parentheses

A group is closed by the first `)` of the code after its `(` that no `(` in between accounts for.
-/

namespace ViewRollout.Sql

/-- How many groups stand open inside a group after a character of it, when so many did before;
none when the character closes the group itself. -/
def depthAfter? (depth : Nat) (marked : Marked) : Option Nat :=
  if marked.code && marked.char == '(' then some (depth + 1)
  else if marked.code && marked.char == ')' then
    match depth with
    | 0 => none
    | depth + 1 => some depth
  else some depth

/-- The place of the `)` that closes a group, in what follows its `(`, when that many groups inside
it stand open. -/
def closing? (depth : Nat) : List Marked → Option Nat
  | [] => none
  | marked :: rest =>
    match depthAfter? depth marked with
    | none => some 0
    | some depth => (closing? depth rest).map (· + 1)

/-- The same place in a text that is read from the region, which is marked no further than that. -/
def closingFrom? (region : Region) (depth : Nat) : List Char → Option Nat
  | [] => none
  | [c] =>
    match depthAfter? depth ⟨c, region == .code && (region.step c none).1 == .code⟩ with
    | none => some 0
    | some _ => none
  | c :: d :: rest =>
    match region.step c (some d) with
    | (after, true) => (closingFrom? after depth rest).map (· + 2)
    | (after, false) =>
      match depthAfter? depth ⟨c, region == .code && after == .code⟩ with
      | none => some 0
      | some depth => (closingFrom? after depth (d :: rest)).map (· + 1)

def group? (text : List Char) : Option (List Char × List Char) :=
  (closingFrom? .code 0 text).map fun place => (text.take (place + 1), text.drop (place + 1))

/-- The place in the text of the `)` that closes the group whose `(` stands just before `start`. -/
def closingParen (text : List Char) (start : Nat) : Except Defect Nat :=
  match closing? 0 (mark .code (text.drop start)) with
  | some place => .ok (start + place)
  | none => .error (.unclosedParen (start - 1))

theorem closingFrom?_eq (region : Region) (depth : Nat) (text : List Char) :
    closingFrom? region depth text = closing? depth (mark region text) := by
  fun_induction closingFrom? region depth text with
  | case1 => rfl
  | case2 depth region c h => simp [mark, closing?, h]
  | case3 depth region c after h => simp [mark, closing?, h]
  | case4 region depth c d rest after h ih =>
    simp [mark, closing?, depthAfter?, h, ih, Option.map_map, Function.comp_def]
  | case5 region depth c d rest after h hd => simp [mark, closing?, h, hd]
  | case6 region depth c d rest after h inner hd ih => simp [mark, closing?, h, hd, ih]

theorem append_of_group? {text group rest : List Char} (h : group? text = some (group, rest)) :
    group ++ rest = text := by
  unfold group? at h
  obtain ⟨place, -, hp⟩ := Option.map_eq_some_iff.1 h
  cases hp
  exact List.take_append_drop _ _

end ViewRollout.Sql
