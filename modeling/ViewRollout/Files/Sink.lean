import ViewRollout.Text.Utf8

/-!
# Sinks

A sink takes bytes until its room, if it is limited, is used up. What does not fit is lost, and the
sink says so.
-/

namespace ViewRollout.Files

structure Sink where
  /-- What has been written, the last byte first. -/
  taken : Bytes
  room : Option Nat
  deriving DecidableEq, Repr

namespace Sink

def ofRoom (room : Option Nat) : Sink :=
  ⟨[], room⟩

def written (sink : Sink) : Bytes :=
  sink.taken.reverse

def fitting (sink : Sink) (bytes : Bytes) : Bytes :=
  match sink.room with
  | none => bytes
  | some room => bytes.take room

def write (sink : Sink) (bytes : Bytes) : Sink × Bool :=
  (⟨(sink.fitting bytes).reverseAux sink.taken, sink.room.map (· - bytes.length)⟩,
    sink.room.all (bytes.length ≤ ·))

theorem written_write (sink : Sink) (bytes : Bytes) :
    (sink.write bytes).1.written = sink.written ++ sink.fitting bytes := by
  simp [write, written, List.reverseAux_eq]

end Sink

end ViewRollout.Files
