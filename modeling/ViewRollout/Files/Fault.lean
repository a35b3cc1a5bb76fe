/-!
# Faults of files and streams

Why a file, a directory or a stream could not be read or written.
-/

namespace ViewRollout.Files

inductive Fault where
  | missing
  | isDirectory
  | notDirectory
  | notText
  | nulInPath
  | full
  | system (reason : String)
  deriving DecidableEq, Repr

def Fault.message : Fault → String
  | .missing => "No such file or directory (os error 2)"
  | .isDirectory => "Is a directory (os error 21)"
  | .notDirectory => "Not a directory (os error 20)"
  | .notText => "stream did not contain valid UTF-8"
  | .nulInPath => "file name contained an unexpected NUL byte"
  | .full => "device full"
  | .system reason => reason

end ViewRollout.Files
