import ViewRollout.Command.Deploy
import ViewRollout.Sequence.Output

/-!
# Putting patches out

The patches of a sequence file, or those named, are checked as a whole and then cut down to what is
asked for: first to a range, then to a number, then to categories.
-/

namespace ViewRollout.Command

variable {m : Type → Type} [Monad m] [Host m]

def selection (s : Sequence) (options : CatRequest) : Except Sequence.Error Sequence :=
  (s.slice options.start options.stop).map fun range =>
    (match options.limit with
      | some n => range.limit n
      | none => range).ofCategories options.categories

def wholeSequence (options : CatRequest) : ExceptT Sequence.Error m Sequence := do
  let s ← if options.patches.isEmpty then Sequence.load options.file
    else pure (Sequence.ofPatches options.patches)
  if options.check then
    s.check "."
  return s

def cat (options : CatRequest) (verbose : Bool) : ExceptT Failure m Unit := do
  let whole ← ExceptT.adapt .sequence (wholeSequence options)
  let s ← ExceptT.adapt .sequence (ExceptT.mk (pure (selection whole options)))
  note verbose ("Selected " ++ toString s.filenames.length ++ " patches\n")
  ExceptT.adapt .sequence (if options.listing then s.list else s.cat "." options.check)

end ViewRollout.Command
