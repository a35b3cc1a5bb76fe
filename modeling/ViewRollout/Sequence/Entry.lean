import ViewRollout.Text.Lines

/-!
# Entries of a sequence

A sequence file lists patches in the order in which they are applied. An entry is a patch file, a
block of comment lines, or a patch file with the comment lines directly above it.
-/

namespace ViewRollout.Sequence

structure Entry where
  /-- Comment lines, with newlines between them. -/
  comment : Option String
  filename : Option String
  deriving DecidableEq, Repr

def occursIn (needle : List Char) : List Char → Bool
  | [] => needle.isEmpty
  | c :: rest => needle.isPrefixOf (c :: rest) || occursIn needle rest

namespace Entry

def patch (filename : String) : Entry :=
  ⟨none, some filename⟩

def isUnder (entry : Entry) (categories : List String) : Bool :=
  categories.isEmpty || entry.filename.any fun filename =>
    categories.any fun category => category.toList.isPrefixOf filename.toList

def contains (entry : Entry) (needle : String) : Bool :=
  (entry.comment.toList ++ entry.filename.toList).any fun text =>
    occursIn needle.toList text.toList

def display (entry : Entry) : String :=
  match entry.comment, entry.filename with
  | some comment, some filename => comment ++ "\n" ++ filename
  | some comment, none => comment
  | none, some filename => filename
  | none, none => ""

end Entry

end ViewRollout.Sequence
