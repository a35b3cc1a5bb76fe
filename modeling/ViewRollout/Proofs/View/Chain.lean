import ViewRollout.View.Basic
import ViewRollout.Proofs.Sql.Group
import ViewRollout.Proofs.Sql.Piece

/-!
# Chains of CTEs as they are written

A chain that was written with one introducer and one group for each CTE is
read back as the same CTEs, and leaves the body that was written behind it.
-/

namespace ViewRollout.View

open Sql Text

variable {introducer : Introducer} {name text inner group rest body : List Char} {ctes : List Cte}

-- ---------------------------------------------------------------------------
-- One step of the reader
-- ---------------------------------------------------------------------------

theorem readChain_of_none (h : introducer.read? (dropComments false text) = none) (size : Nat) :
    readChain size introducer text = .ok ([], text) := by
  rw [readChain]
  split
  · rfl
  · simp_all
  · simp_all

theorem readChain_of_group
    (h : introducer.read? (dropComments false text) = some (name, '(' :: inner))
    (hg : group? inner = some (group, rest)) (size : Nat) :
    readChain size introducer text =
      (readChain size .more (trimStart rest)).map fun (ctes, body) =>
        (⟨String.ofList name, String.ofList ('(' :: group)⟩ :: ctes, body) := by
  rw [readChain]
  split
  · simp_all
  · rename_i name' inner' h'
    obtain ⟨rfl, rfl⟩ : name = name' ∧ inner = inner' := by simpa [h] using h'
    split
    · simp_all
    · rename_i group' rest' hg'
      obtain ⟨rfl, rfl⟩ : group = group' ∧ rest = rest' := by simpa [hg] using hg'
      rfl
  · rename_i hne h'
    obtain ⟨rfl, rfl⟩ := Prod.mk.inj (Option.some.inj (h.symm.trans h'))
    exact absurd rfl (hne _)

-- ---------------------------------------------------------------------------
-- One CTE
-- ---------------------------------------------------------------------------

/-- A CTE that can be told from what stands around it: its name is a word, its body a group that
is closed at its last character. -/
structure Cte.Sound (cte : Cte) : Prop where
  name : IsWord cte.name.toList
  opened : cte.body.toList.head? = some '('
  closed : closingParen cte.body.toList 1 = .ok (cte.body.toList.length - 1)

theorem Cte.Sound.eq_group {cte : Cte} (h : cte.Sound) :
    ∃ inner, cte.body.toList = '(' :: inner ∧ ClosesAtEnd inner := by
  have hc := h.closed
  cases hb : cte.body.toList with
  | nil =>
    have ho := h.opened
    simp [hb] at ho
  | cons c inner =>
    obtain rfl : c = '(' := by simpa [hb] using h.opened
    rw [hb] at hc
    exact ⟨inner, rfl, closingParen_eq_ok_iff.1 hc⟩

def Introducer.written : Introducer → List Char
  | .first => ['W', 'I', 'T', 'H', ' ']
  | .more => [',']

/-- What is written between the name of a CTE and its body. -/
def asLine : List Char :=
  [' ', 'A', 'S', '\n']

theorem introduced?_append (hw : IsWord name) (rest : List Char) :
    introduced? (name ++ (asLine ++ '(' :: rest)) = some (name, '(' :: rest) := by
  have hn := name?_append (.bare : Named name name) hw (c := ' ') (by decide) (by decide)
    ('A' :: 'S' :: '\n' :: '(' :: rest)
  have ha : as? (['A', 'S'] ++ '\n' :: '(' :: rest) = some ('\n' :: '(' :: rest) :=
    as?_append rfl (by simp [endsWord, isWordChar_newline])
  have hs : trimStart (' ' :: 'A' :: 'S' :: '\n' :: '(' :: rest) =
      ['A', 'S'] ++ '\n' :: '(' :: rest := rfl
  rw [introduced?, show name ++ (asLine ++ '(' :: rest) =
    name ++ ' ' :: 'A' :: 'S' :: '\n' :: '(' :: rest from rfl, hn, Option.map_some]
  simp only [hs, ha, Option.map_some, Option.getD_some]
  rfl

theorem Introducer.read?_append (introducer : Introducer) (hw : IsWord name)
    (rest : List Char) :
    introducer.read? (introducer.written ++ (name ++ (asLine ++ '(' :: rest))) =
      some (name, '(' :: rest) := by
  have hb : (name ++ (asLine ++ '(' :: rest)).head?.any isBlank = false :=
    Named.head_not_blank .bare hw _
  cases introducer with
  | first =>
    have hk : keyword? ['W', 'I', 'T', 'H'] (['W', 'I', 'T', 'H'] ++
        ' ' :: (name ++ (asLine ++ '(' :: rest))) =
          some (' ' :: (name ++ (asLine ++ '(' :: rest))) :=
      keyword?_append rfl _
    have hg : blanks? ([' '] ++ (name ++ (asLine ++ '(' :: rest))) =
        some (name ++ (asLine ++ '(' :: rest)) :=
      blanks?_append (by decide) hb
    show ((keyword? ['W', 'I', 'T', 'H'] (['W', 'I', 'T', 'H'] ++
      ' ' :: (name ++ (asLine ++ '(' :: rest)))).bind blanks?).bind introduced? = _
    rw [hk, Option.bind_some]
    show ((blanks? ([' '] ++ (name ++ (asLine ++ '(' :: rest)))).bind introduced?) = _
    rw [hg, Option.bind_some, introduced?_append hw]
  | more =>
    show introduced? (trimStart (name ++ (asLine ++ '(' :: rest))) = _
    rw [trimStart_eq_self hb, introduced?_append hw]

theorem dropComments_introducer (introducer : Introducer) (rest : List Char) :
    dropComments false (introducer.written ++ rest) = introducer.written ++ rest := by
  cases introducer with
  | first => rfl
  | more => rfl

-- ---------------------------------------------------------------------------
-- The whole chain
-- ---------------------------------------------------------------------------

/-- What the reader looks for after so many CTEs. -/
def Introducer.behind (introducer : Introducer) : List Cte → Introducer
  | [] => introducer
  | _ :: _ => .more

/-- The chain as it is written behind the introducer's keyword. -/
def Introducer.chain (introducer : Introducer) (ctes : List Cte) : List Char :=
  (renderCtes (String.ofList introducer.written) ctes).toList

theorem Introducer.chain_nil (introducer : Introducer) : introducer.chain [] = [] := rfl

theorem Introducer.chain_cons (introducer : Introducer) (cte : Cte) (ctes : List Cte) :
    introducer.chain (cte :: ctes) = introducer.written ++ (cte.name.toList ++ (asLine ++
      (cte.body.toList ++ '\n' :: Introducer.more.chain ctes))) := by
  simp [Introducer.chain, renderCtes, Introducer.written, asLine]

theorem Introducer.head_not_blank (introducer : Introducer) (rest : List Char) :
    (introducer.written ++ rest).head?.any isBlank = false := by
  cases introducer with
  | first => rfl
  | more => rfl

/-- Only the end of a written chain can lose anything to trimming, and what it loses is behind the
first group. -/
theorem Introducer.trim_chain_cons (introducer : Introducer) {cte : Cte}
    (hb : cte.body.toList = '(' :: inner) (hc : ClosesAtEnd inner) (ctes : List Cte)
    (body : List Char) :
    trim (introducer.chain (cte :: ctes) ++ body) = introducer.written ++ (cte.name.toList ++
      (asLine ++ '(' :: (inner ++ trimEnd ('\n' :: (Introducer.more.chain ctes ++ body))))) := by
  let opened := introducer.written ++ (cte.name.toList ++ (asLine ++ '(' :: inner))
  have hlast : opened.getLast?.any isBlank = false := by
    simp only [opened, List.getLast?_append, List.getLast?_cons, hc.getLast?]
    exact (by decide : isBlank ')' = false)
  have hsplit : introducer.chain (cte :: ctes) ++ body =
      opened ++ '\n' :: (Introducer.more.chain ctes ++ body) := by
    simp [introducer.chain_cons, hb, opened]
  have hhead (rest : List Char) : (opened ++ rest).head?.any isBlank = false := by
    rw [List.append_assoc]
    exact introducer.head_not_blank _
  rw [hsplit, trim, trimStart_eq_self (hhead _), trimEnd_append hlast]
  simp [opened]

theorem readChain_chain (hc : ∀ cte ∈ ctes, Cte.Sound cte) (hb : trim body = body)
    (hi : (introducer.behind ctes).read? (dropComments false body) = none) (size : Nat) :
    readChain size introducer (trim (introducer.chain ctes ++ body)) = .ok (ctes, body) := by
  induction ctes generalizing introducer with
  | nil =>
    rw [introducer.chain_nil, List.nil_append, hb]
    exact readChain_of_none hi size
  | cons cte ctes ih =>
    have hs := hc cte (List.mem_cons_self ..)
    obtain ⟨inner, hbody, hclose⟩ := hs.eq_group
    let tail := Introducer.more.chain ctes ++ body
    have hread := introducer.read?_append hs.name (inner ++ trimEnd ('\n' :: tail))
    have hrest : trimStart (trimEnd ('\n' :: tail)) = trim tail := trimStart_trimEnd _
    have hmore : readChain size .more (trim tail) = .ok (ctes, body) := by
      refine ih (fun c hm => hc c (List.mem_cons_of_mem _ hm)) ?_
      cases ctes with
      | nil => exact hi
      | cons => exact hi
    rw [introducer.trim_chain_cons hbody hclose, readChain_of_group
      (by rw [dropComments_introducer, hread]) (group?_append hclose _), hrest, hmore]
    show Except.ok (_, _) = _
    rw [String.ofList_toList, ← hbody, String.ofList_toList]

end ViewRollout.View
