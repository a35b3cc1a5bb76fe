/-!
# Environments

The places that views are rolled out to.
-/

namespace ViewRollout.Config

inductive Environment where
  | uat
  | prod
  | local
  deriving DecidableEq, Repr

namespace Environment

def name : Environment → String
  | .uat => "uat"
  | .prod => "prod"
  | .local => "local"

/-- What the environment is called when a person is asked about it. -/
def label : Environment → String
  | .uat => "UAT"
  | .prod => "PROD"
  | .local => "LOCAL"

end Environment

end ViewRollout.Config
