import ViewRollout.Config.Basic
import ViewRollout.Files.Path
import ViewRollout.Host

/-!
# Loading configurations

A configuration may be spread over several files. The first has to be there; of the others those
that are there lie over it in their order.
-/

namespace ViewRollout.Config

variable {m : Type → Type} [Monad m] [Host m]

def loadFile (path : String) : ExceptT Error m Config := do
  let text ← attempt (.unreadable path) (readText path)
  let config ← ExceptT.mk (pure (parse text))
  return { config with home := Files.Path.parent? path }

def loadOver (config : Config) : List String → ExceptT Error m Config
  | [] => pure config
  | path :: rest => do
    if ← ExceptT.lift (Host.isThere path) then
      let text ← attempt (.unreadable path) (readText path)
      let config ← ExceptT.mk (pure (config.withText text))
      loadOver config rest
    else
      loadOver config rest

def load : List String → ExceptT Error m Config
  | [] => pure default
  | first :: rest => do
    let config ← loadFile first
    loadOver config rest

end ViewRollout.Config
