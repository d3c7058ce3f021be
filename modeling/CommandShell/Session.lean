import CommandShell.Environment
import CommandShell.History
import CommandShell.Output
import CommandShell.Variable

/-!
The state that commands read and change.
-/

namespace CommandShell

structure Session (World : Type) where
  /-- The name in front of every report. -/
  program : Text
  processId : Nat
  /-- Whether lines come from a terminal. -/
  interactive : Bool
  environment : Environment
  aliases : Bindings
  history : History
  /-- The status of the last command that ran. -/
  status : Status
  /-- The number of input lines read so far. -/
  line : Nat
  /-- Set by `exit`: the status with which the session is left. -/
  leaving : Option Status
  world : World
  output : Output

namespace Session

variable {World : Type}

def new (program : Text) (processId : Nat) (environment : Environment) (history : History)
    (world : World) : Session World :=
  { program, processId, interactive := false, environment, aliases := Bindings.empty, history,
    status := 0, line := 0, leaving := none, world, output := {} }

def emit (session : Session World) (event : Event) : Session World :=
  { session with output := session.output.emit event }

def print (session : Session World) (text : Text) : Session World × Except Failure Unit :=
  match session.output.print text with
  | (output, .ok ()) => ({ session with output }, .ok ())
  | (output, .error fault) => ({ session with output }, .error (.foreign fault.message))

/-- Prints as the last act of a command, which succeeds when all of it was taken. -/
def conclude (session : Session World) (text : Text) : Session World × Except Failure Status :=
  match session.print text with
  | (session, .ok ()) => (session, .ok 0)
  | (session, .error failure) => (session, .error failure)

def printLines (session : Session World) (lines : List Text) :
    Session World × Except Failure Status :=
  session.conclude (lines.flatMap (· ++ ['\n']))

def references (session : Session World) : Variable.Context :=
  { bindings := session.environment.bindings
    status := session.status
    processId := session.processId }

end Session

end CommandShell
