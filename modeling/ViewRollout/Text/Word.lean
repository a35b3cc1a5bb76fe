import ViewRollout.Text.WordTable

/-!
# Words

A word is a run of word characters: letters, digits, marks, connectors and joiners of any script.
-/

namespace ViewRollout.Text

def isWordChar (c : Char) : Bool :=
  if c.toNat < 0x80 then c.isAlphanum || c == '_' else wordRanges.contains c

def word? (text : List Char) : Option (List Char × List Char) :=
  match text.takeWhile isWordChar with
  | [] => none
  | word => some (word, text.dropWhile isWordChar)

def endsWord (text : List Char) : Bool :=
  !text.head?.any isWordChar

theorem append_of_word? {text word rest : List Char} (h : word? text = some (word, rest)) :
    word ++ rest = text := by
  unfold word? at h
  split at h
  · cases h
  · cases h
    exact List.takeWhile_append_dropWhile

end ViewRollout.Text
