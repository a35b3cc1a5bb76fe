import ViewRollout.Sql.Name
import ViewRollout.Sql.Paren
import ViewRollout.Text.Utf8

/-!
# Chains of common table expressions

`WITH a AS (...), b AS (...)` names groups in parentheses; the body of the statement follows. A
chain is read one introducer and one group at a time. Comment lines before an introducer belong to
the chain, comment lines before the body to the body.
-/

namespace ViewRollout.View

open Sql Text

/-- A common table expression: its name and the group it stands for, parentheses included. -/
structure Cte where
  name : String
  body : String
  deriving DecidableEq, Repr

/-- The text from its first character that is neither blank nor in a line comment; `comment` says
that the text begins inside such a comment. -/
def dropComments (comment : Bool) : List Char → List Char
  | [] => []
  | c :: rest =>
    if comment then dropComments (c != '\n') rest
    else if isBlank c then dropComments false rest
    else if c = '-' ∧ rest.head? = some '-' then dropComments true rest
    else c :: rest

inductive Introducer where
  | first
  | more
  deriving DecidableEq, Repr

def introduced? (text : List Char) : Option (List Char × List Char) :=
  (name? text).map fun (name, rest) =>
    (name, ((as? (trimStart rest)).map trimStart).getD (trimStart rest))

def Introducer.read? (introducer : Introducer) (text : List Char) :
    Option (List Char × List Char) :=
  match introducer, text with
  | .first, text => ((keyword? ['W', 'I', 'T', 'H'] text).bind blanks?).bind introduced?
  | .more, ',' :: rest => introduced? (trimStart rest)
  | .more, _ => none

theorem length_dropComments_le (comment : Bool) (text : List Char) :
    (dropComments comment text).length ≤ text.length := by
  fun_induction dropComments comment text <;> simp_all <;> omega

theorem length_of_introduced? {text name rest : List Char}
    (h : introduced? text = some (name, rest)) : rest.length ≤ text.length := by
  obtain ⟨⟨name', rest'⟩, hn, hr⟩ := Option.map_eq_some_iff.1 h
  cases hr
  have h₁ := length_of_name? hn
  have h₂ := length_trimStart_le rest'
  cases ha : as? (trimStart rest') with
  | none => simp only [Option.map_none, Option.getD_none]; omega
  | some after =>
    have h₃ := length_of_as? ha
    have h₄ := length_trimStart_le after
    simp only [Option.map_some, Option.getD_some]; omega

theorem Introducer.length_of_read? {introducer : Introducer} {text name rest : List Char}
    (h : introducer.read? text = some (name, rest)) : rest.length ≤ text.length := by
  unfold Introducer.read? at h
  split at h
  · obtain ⟨after, ha, hi⟩ := Option.bind_eq_some_iff.1 h
    obtain ⟨begun, hb, hr⟩ := Option.bind_eq_some_iff.1 ha
    have h₁ := length_of_keyword? hb
    have h₂ := length_of_blanks? hr
    have h₃ := length_of_introduced? hi
    omega
  · rename_i after
    have h₁ := length_of_introduced? h
    have h₂ := length_trimStart_le after
    simp only [List.length_cons]
    omega
  · cases h

/-- The chain at the beginning of a text and the body after it. An unclosed group is reported by
the place of its parenthesis in the whole text, of which `size` is the number of bytes. -/
def readChain (size : Nat) (introducer : Introducer) (text : List Char) :
    Except Defect (List Cte × List Char) :=
  match _hi : introducer.read? (dropComments false text) with
  -- With no introducer the comments that were looked past open the body.
  | none => .ok ([], text)
  | some (name, '(' :: inner) =>
    match _hg : group? inner with
    | none => .error (.unclosedParen (size - byteSize ('(' :: inner)))
    | some (group, rest) =>
      (readChain size .more (trimStart rest)).map fun (ctes, body) =>
        (⟨String.ofList name, String.ofList ('(' :: group)⟩ :: ctes, body)
  | some (name, _) => .error (.noCteBody (String.ofList name))
termination_by text.length
decreasing_by
  have h₁ := Introducer.length_of_read? _hi
  have h₂ := length_dropComments_le false text
  have h₃ := length_trimStart_le rest
  have h₄ : (group ++ rest).length = inner.length := by rw [append_of_group? _hg]
  simp only [List.length_append, List.length_cons] at h₁ h₄
  omega

def readCtes (text : String) : Except Defect (List Cte × String) :=
  (readChain (byteSize text.toList) .first (trimStart text.toList)).map fun (ctes, body) =>
    (ctes, String.ofList body)

end ViewRollout.View
