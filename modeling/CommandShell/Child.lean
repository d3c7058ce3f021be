import CommandShell.Lookup
import CommandShell.Session

/-!
Commands that are not built in: they are looked up and run as children, which inherit the
session's variables and its directory.
-/

namespace CommandShell.Child

variable {World : Type}

def launchOf (environment : Environment) (program : Path) (name : Text)
    (arguments : List Text) : Launch :=
  { program, name, arguments
    bindings := environment.childBindings
    directory := environment.directory }

/-- Why a child did not start, in the words of the report. -/
def reason : Fault → Text
  | .denied => "Permission denied"
  | fault => fault.message

def start (platform : Platform World) (world : World) (launch : Launch) :
    Except Fault (ChildRun World) :=
  if launch.holdsNul then .error .dataHoldsNul else platform.launch world launch

def locate (platform : Platform World) (session : Session World) (name : Text) : Option Path :=
  Lookup.find? (platform.isRegular session.world) session.environment.directory name
    (session.environment.get? "PATH")

/-- Output printed so far has to be out before a child adds its own, so a refused flush starts no
child. -/
def run (platform : Platform World) (session : Session World) (name : Text)
    (arguments : List Text) : Session World × Except Failure Status :=
  match locate platform session name with
  | none => (session, .error (.notFound name))
  | some program =>
    match session.output.flush with
    | .error fault => (session, .error (.foreign fault.message))
    | .ok () =>
      match start platform session.world
          (launchOf session.environment program name arguments) with
      | .error fault => (session, .error (.cannotExecute name (reason fault)))
      | .ok child =>
        let output := child.printed.foldl
          (fun output (channel, bytes) => output.emit (.child channel bytes)) session.output
        ({ session with world := child.world, output }, .ok child.ending.status)

end CommandShell.Child
