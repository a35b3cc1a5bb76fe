import ViewRollout.Host
import ViewRollout.Text.Blank

/-!
# Questions

A question is put to a person until the answer is a beginning of `yes` or of `no`, in any case.
Silence means no.
-/

namespace ViewRollout.Command

/-- What an answer line says, if it says anything. No character beyond ASCII has a lower case that
is a letter of the two words, so it is enough to lower those of ASCII. -/
def answer? (line : String) : Option Bool :=
  let word := (Text.trim line.toList).map Char.toLower
  if word = [] then none
  else if word.isPrefixOf ['n', 'o'] then some false
  else if word.isPrefixOf ['y', 'e', 's'] then some true
  else none

def agrees {m : Type → Type} [Monad m] [Host m] (question : String) :
    ExceptT Files.Fault m Bool := do
  attempt id (Host.print (question ++ "\n"))
  return (← attempt id (Host.query ">> " answer?)).getD false

end ViewRollout.Command
