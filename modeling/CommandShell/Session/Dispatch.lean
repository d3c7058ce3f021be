import CommandShell.Builtin.Run
import CommandShell.Child

/-!
One segment of a chain, behind its aliases: its words are expanded, the command is run, and its
outcome becomes the status of the session.
-/

namespace CommandShell.Session

variable {World : Type} (platform : Platform World)

def dispatch (session : Session World) (name : Text) (arguments : List Text) :
    Session World × Except Failure Status :=
  match Builtin.find? name with
  | some builtin => builtin.run platform session arguments
  | none => Child.run platform session name arguments

/-- A report names the program and the input line. -/
def reportLine (session : Session World) (command : Text) (failure : Failure) : Text :=
  session.program ++ ": " ++ Decimal.ofNat session.line ++ ": " ++ failure.report command

def settle (session : Session World) (command : Text) :
    Except Failure Status → Session World
  | .ok status => { session with status }
  | .error failure =>
    { session.emit (.reported (session.reportLine command failure)) with status := failure.status }

/-- The status of a child that the interrupt signal ended. -/
def interrupted : Status := 130

/-- On a terminal the echo of an interrupt stands alone on its line; a refused line end is let
pass. -/
def endInterrupt (session : Session World) : Session World :=
  if session.interactive && session.status == interrupted then (session.print "\n").1 else session

def flush (session : Session World) : Session World :=
  match session.output.flush with
  | .ok () => session
  | .error fault => session.emit (.noted (.cannotFlush fault))

def runWords (session : Session World) : List Text → Session World
  | [] => session
  | name :: arguments =>
    let (session, outcome) :=
      (session.emit (.dispatched (name :: arguments))).dispatch platform name arguments
    (session.settle name outcome).endInterrupt.flush

def expandedWords (session : Session World) (text : Text) : List Text :=
  (Text.words text).map session.references.expand

/-- Runs a segment as it stands; one without words leaves everything as it is. -/
def runSegment (session : Session World) (segment : Segment) : Session World :=
  session.runWords platform (session.expandedWords segment.text)

end CommandShell.Session
