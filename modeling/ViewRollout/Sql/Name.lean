import ViewRollout.Sql.Lexer
import ViewRollout.Text.Blank
import ViewRollout.Text.Fold
import ViewRollout.Text.Word

/-!
# Names and what surrounds them

The pieces that headers and CTE introducers are made of: blank space, a word with or without a
backtick on each side, and AS. A reader gives what follows its piece, and none when the text does
not begin with it. No reader gives back more text than it was given.
-/

namespace ViewRollout.Sql

open Text

def blanks? (text : List Char) : Option (List Char) :=
  match text with
  | [] => none
  | c :: rest => if isBlank c then some (trimStart rest) else none

def dropTick : List Char → List Char
  | [] => []
  | c :: rest => if c = backtick then rest else c :: rest

def name? (text : List Char) : Option (List Char × List Char) :=
  (word? (dropTick text)).map fun (word, rest) => (word, dropTick rest)

def as? (text : List Char) : Option (List Char) :=
  (keyword? ['A', 'S'] text).filter endsWord

theorem length_dropTick_le (text : List Char) : (dropTick text).length ≤ text.length := by
  cases text with
  | nil => simp [dropTick]
  | cons c rest =>
    rw [dropTick]
    split <;> simp

theorem length_of_name? {text word rest : List Char} (h : name? text = some (word, rest)) :
    rest.length ≤ text.length := by
  obtain ⟨⟨word', rest'⟩, hw, hr⟩ := Option.map_eq_some_iff.1 h
  cases hr
  have hl : (word ++ rest').length = (dropTick text).length := by rw [append_of_word? hw]
  have h₁ := length_dropTick_le text
  have h₂ := length_dropTick_le rest'
  simp only [List.length_append] at hl
  omega

theorem length_of_as? {text rest : List Char} (h : as? text = some rest) :
    rest.length ≤ text.length := by
  have := length_of_keyword? (Option.filter_eq_some_iff.1 h).1
  omega

theorem length_of_blanks? {text rest : List Char} (h : blanks? text = some rest) :
    rest.length ≤ text.length := by
  cases text with
  | nil => simp [blanks?] at h
  | cons c text =>
    simp only [blanks?, Option.ite_none_right_eq_some, Option.some.injEq] at h
    have := length_trimStart_le text
    simp only [← h.2, List.length_cons]
    omega

end ViewRollout.Sql
