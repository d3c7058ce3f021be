import CommandShell.Failure
import CommandShell.Fault
import CommandShell.History
import CommandShell.Platform

/-!
What a session lets be seen, as one sequence of events, and the writer for the output of
built-ins, which may refuse bytes or flushes.
-/

namespace CommandShell

/-- What is noted for the operator and not for the user. -/
inductive Notice
  | historyFailed (fault : History.Fault)
  | cannotFlush (fault : OutputFault)
  | cannotReadStartup (path : Path) (fault : Fault)
  | cannotReadInput (fault : Fault)
  deriving DecidableEq, Repr

inductive Notice.Level
  | warning
  | error
  deriving DecidableEq, Repr

def Notice.level : Notice → Notice.Level
  | .cannotReadInput _ => .error
  | _ => .warning

def Notice.message : Notice → Text
  | .historyFailed fault => "history: " ++ fault.message
  | .cannotFlush fault => "can't flush output: " ++ fault.message
  | .cannotReadStartup path fault => "can't read " ++ path ++ ": " ++ fault.message
  | .cannotReadInput fault => "can't read input: " ++ fault.message

inductive Event
  | dispatched (words : List Text)
  | printed (bytes : Bytes)
  | prompted (prompt : Text)
  | child (channel : Channel) (bytes : Bytes)
  | reported (line : Text)
  | noted (notice : Notice)
  deriving DecidableEq, Repr

structure Output where
  /-- The number of bytes that the writer still takes, when it is bounded. -/
  room : Option Nat := none
  refusesFlush : Bool := false
  events : List Event := []
  deriving DecidableEq, Repr

namespace Output

def emit (output : Output) (event : Event) : Output :=
  { output with events := output.events ++ [event] }

/-- Writes what the writer takes; a writer that takes less than all of it fails. -/
def write (output : Output) (bytes : Bytes) : Output × Except OutputFault Unit :=
  match output.room with
  | none => (output.emit (.printed bytes), .ok ())
  | some room =>
    let rest := { output with room := some (room - bytes.length) }
    if bytes.length ≤ room then (rest.emit (.printed bytes), .ok ())
    else (rest.emit (.printed (bytes.take room)), .error .limitReached)

def print (output : Output) (text : Text) : Output × Except OutputFault Unit :=
  output.write (Utf8.encode text)

def printed (output : Output) : Bytes :=
  output.events.flatMap fun
    | .printed bytes => bytes
    | _ => []

/-- What built-ins printed, as text. -/
def contents (output : Output) : Text :=
  Utf8.decodeLossy output.printed

def flush (output : Output) : Except OutputFault Unit :=
  if output.refusesFlush then .error .flushRefused else .ok ()

end Output

end CommandShell
