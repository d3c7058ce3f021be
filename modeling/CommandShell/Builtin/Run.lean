import CommandShell.Alias
import CommandShell.Alias.Definition
import CommandShell.Builtin
import CommandShell.Session

/-!
What the built-in commands do to a session.
-/

namespace CommandShell.Builtin

variable {World : Type}

/-- The operand of `exit`: digits behind at most one plus sign, reduced to a byte. -/
def exitStatus? (operand : Text) : Option Status :=
  let digits :=
    match operand with
    | '+' :: digits => digits
    | digits => digits
  if digits.isEmpty || !digits.all Char.isDigit then
    none
  else
    match Decimal.readFrom Decimal.statusBound 0 digits with
    | .ok value => some ((value % 256 : Nat) : Int)
    | .error _ => none

def leave (session : Session World) (operand : Option Text) :
    Session World × Except Failure Status :=
  match operand with
  | none => ({ session with leaving := some session.status }, .ok session.status)
  | some text =>
    match exitStatus? text with
    | none => (session, .error (.illegalNumber text))
    | some code => ({ session with leaving := some code }, .ok code)

/-- Where `cd` goes, and whether it tells. -/
def destination (environment : Environment) (target : Option Text) :
    Except Failure (Text × Bool) :=
  match target with
  | none | some [] =>
    .ok (((environment.get? "HOME").or (environment.get? "PWD")).getD "/", false)
  | some ['-'] =>
    match environment.get? "OLDPWD" with
    | some directory => .ok (directory, true)
    | none => .error (.builtin cd.name "OLDPWD not set")
  | some directory => .ok (directory, false)

/-- The environment after a move. -/
def moved (environment : Environment) (directory : Path) : Environment :=
  let left := environment.directory
  ({ environment with directory }.set "OLDPWD" left).set "PWD" directory

def changeDirectory (platform : Platform World) (session : Session World)
    (target : Option Text) : Session World × Except Failure Status :=
  match destination session.environment target with
  | .error failure => (session, .error failure)
  | .ok (target, announced) =>
    match platform.canonical? session.world (Path.join session.environment.directory target) with
    | none => (session, .error (.cannotEnter target))
    | some directory =>
      match platform.enter? session.world directory with
      | none => (session, .error (.cannotEnter target))
      | some world =>
        let session := { session with world, environment := moved session.environment directory }
        if announced then session.printLines [directory] else (session, .ok 0)

def overview (program : Text) : List Text :=
  (program ++ " built-in commands:") :: all.map (fun builtin => "  ".toList ++ builtin.summary) ++
    [("Type 'help NAME' to learn more about NAME." : Text)]

def describe (session : Session World) (topic : Option Text) :
    Session World × Except Failure Status :=
  match topic with
  | none => session.printLines (overview session.program)
  | some topic =>
    match find? topic with
    | some builtin => session.conclude builtin.usage
    | none =>
      (session, .error (.builtin help.name ("no help topics match '" ++ topic ++ "'")))

def listVariables (session : Session World) : Session World × Except Failure Status :=
  session.printLines
    (session.environment.bindings.toList.map fun (name, value) => name ++ '=' :: value)

def isVariableName (name : Text) : Bool :=
  !name.isEmpty && !name.contains '='

def setVariable (session : Session World) (name value : Text) :
    Session World × Except Failure Status :=
  if isVariableName name then
    ({ session with environment := session.environment.set name value }, .ok 0)
  else
    (session, .error (.builtin setenv.name ("invalid variable name '" ++ name ++ "'")))

def unsetVariables (session : Session World) (names : List Text) :
    Session World × Except Failure Status :=
  if names.isEmpty then
    (session, .error (.builtin unsetenv.name "Too few arguments."))
  else
    ({ session with environment := names.foldl Environment.unset session.environment }, .ok 0)

/-- Carries out definitions in order; the names asked for that are no aliases are gathered, and a
definition without a name or refused output ends the rest. -/
def define (session : Session World) (missing : List Text) :
    List Alias.Definition → Session World × Except Failure (List Text)
  | [] => (session, .ok missing)
  | .define [] _ :: _ => (session, .error (.builtin alias.name "missing alias name"))
  | .define name value :: rest =>
    define { session with aliases := session.aliases.put name value } missing rest
  | .query name :: rest =>
    match session.aliases.get? name with
    | none => define session (missing ++ [name]) rest
    | some value =>
      match session.print (Alias.display name value ++ ['\n']) with
      | (session, .ok ()) => define session missing rest
      | (session, .error failure) => (session, .error failure)

def runAlias (session : Session World) (definitions : List Text) :
    Session World × Except Failure Status :=
  if definitions.isEmpty then
    session.printLines (Alias.displayAll session.aliases)
  else
    match define session [] (Alias.Definition.parse (Text.joined " " definitions)) with
    | (session, .ok []) => (session, .ok 0)
    | (session, .ok missing) =>
      (session, .error (.builtin alias.name (Text.joined " " missing ++ " not found")))
    | (session, .error failure) => (session, .error failure)

def listHistory (session : Session World) : Session World × Except Failure Status :=
  session.printLines
    (session.history.entries.map fun entry => Decimal.ofNat entry.index ++ ' ' :: entry.line)

def perform (platform : Platform World) (session : Session World) :
    Request → Session World × Except Failure Status
  | .explain builtin => session.conclude builtin.usage
  | .exit operand => leave session operand
  | .cd target => changeDirectory platform session target
  | .help topic => describe session topic
  | .env => listVariables session
  | .setenv name value => setVariable session name value
  | .unsetenv names => unsetVariables session names
  | .alias definitions => runAlias session definitions
  | .history => listHistory session

def run (platform : Platform World) (builtin : Builtin) (session : Session World)
    (arguments : List Text) : Session World × Except Failure Status :=
  match builtin.request arguments with
  | .error fault => (session, .error (builtin.refusal fault))
  | .ok request => perform platform session request

end CommandShell.Builtin
