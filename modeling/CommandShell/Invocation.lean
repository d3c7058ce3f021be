import CommandShell.Arguments
import CommandShell.Settings
import CommandShell.Shell

/-!
The program as it is called: its options, the session that they ask for, and what that leaves
behind.
-/

namespace CommandShell

open Arguments (Usage Signature Reading)

structure Invocation where
  /-- The name under which the program was called. -/
  program : Text
  arguments : List Text
  /-- The entries of the inherited environment. -/
  entries : List Bytes
  processId : Nat
  /-- Whether the input is typed on a terminal. -/
  terminal : Bool
  input : Bytes

structure Exit (World : Type) where
  status : Status
  output : Bytes
  errors : Bytes
  world : World

namespace Invocation

def block (invocation : Invocation) : List (Bytes × Bytes) :=
  invocation.entries.filterMap Environment.entry?

def signature : Signature :=
  { flags :=
      [{ name := "command", spellings := ["-c", "--command"], takes := some .text },
        { name := "history-file", spellings := ["--history-file"], takes := some .text },
        { name := "history-size", spellings := ["--history-size"], takes := some .size },
        { name := "history-append", spellings := ["--history-append"], takes := none },
        { name := "no-history", spellings := ["--no-history"], takes := none },
        { name := "rcfile", spellings := ["--rcfile"], takes := some .text }]
    operands := [{ name := "script", arity := .optional }] }

def explanation : Usage :=
  { synopsis :=
      " [-c <command>] [--history-file <history-file>] [--history-size <history-size>]".toList ++
        " [--history-append] [--no-history] [--rcfile <rcfile>] [--] [<script>]"
    about := "A simple command interpreter."
    operands := [("script", ["script to run instead of reading standard input"])]
    flags :=
      [("-c, --command", ["run COMMAND and exit"]),
        ("--history-file", ["history file (default: $HISTFILE or ~/.simple_shell_history)"]),
        ("--history-size", ["number of history entries to keep"]),
        ("--history-append", ["append every accepted line to the history file immediately"]),
        ("--no-history", ["keep history in memory only"]),
        ("--rcfile", ["startup file for interactive sessions (default: ~/.hshrc)"])] }

/-- A command given as an option comes before a script, and both before the input. -/
def lineSource (invocation : Invocation) (reading : Reading) : LineSource :=
  match reading.value? "command", reading.operands.head? with
  | some line, _ => .command line
  | none, some path => .script path
  | none, none => if invocation.terminal then .terminal else .pipe

/-- Options win over the environment; a single command leaves no trace in the history file. -/
def settings (environment : Environment) (reading : Reading) : Settings :=
  let given := Settings.ofEnvironment environment
  let kept := !reading.switches.contains "no-history" && (reading.value? "command").isNone
  { historyFile? :=
      if kept then (reading.value? "history-file").or given.historyFile? else none
    historyLimit :=
      ((reading.value? "history-size").bind Settings.limit?).getD given.historyLimit
    historySync :=
      if reading.switches.contains "history-append" then .eachLine else given.historySync
    startupFile? := (reading.value? "rcfile").or given.startupFile? }

variable {World : Type} (platform : Platform World)

/-- The shell before its first line, with what the history file held. -/
def start (invocation : Invocation) (environment : Environment) (settings : Settings)
    (interactive : Bool) (world : World) : Shell World :=
  let (history, outcome) := settings.history.load platform world
  let session : Session World :=
    { Session.new invocation.program invocation.processId environment history world with
      interactive }
  match outcome with
  | .ok _ => { session }
  | .error fault => ({ session } : Shell World).note (.historyFailed fault)

def interact (shell : Shell World) (startup : Option Path) (input : Bytes) :
    Shell World × Status :=
  match startup with
  | none => shell.interact platform (some Settings.prompt) input
  | some path =>
    match shell.source platform path with
    | (shell, some code) => (shell, code)
    | (shell, none) => shell.interact platform (some Settings.prompt) input

def runSource (invocation : Invocation) (shell : Shell World) (startup : Option Path) :
    LineSource → Shell World × Status
  | .terminal => interact platform shell startup invocation.input
  | .pipe => shell.runReader platform invocation.input
  | .script path => shell.runScript platform path
  | .command line => shell.runCommand platform line

/-- What reaches the standard output, children's output included. -/
def outputOf (events : List Event) : Bytes :=
  events.flatMap fun
    | .printed bytes => bytes
    | .prompted prompt => Utf8.encode prompt
    | .child .output bytes => bytes
    | _ => []

def errorsOf (events : List Event) : Bytes :=
  events.flatMap fun
    | .reported line => Utf8.encode (line ++ ['\n'])
    | .child .error bytes => bytes
    | _ => []

def session (invocation : Invocation) (reading : Reading) (world : World) : Exit World :=
  let environment := Environment.capture invocation.block
    ((platform.workingDirectory? world).getD ".")
  let settings := settings environment reading
  let source := invocation.lineSource reading
  let shell := invocation.start platform environment settings source.isInteractive world
  let (shell, status) := runSource platform invocation shell settings.startupFile? source
  let session := (shell.finish platform).session
  { status := status % 256
    output := outputOf session.output.events
    errors := errorsOf session.output.events
    world := session.world }

/-- The files that a call names, in its arguments or its environment. -/
def filesNamed (invocation : Invocation) : List Path :=
  match signature.parse invocation.arguments with
  | .ok (.taken reading) =>
    let settings := settings (Environment.capture invocation.block ".") reading
    settings.historyFile?.toList ++ settings.startupFile?.toList ++ reading.operands
  | _ => []

/-- The name in the usage text: the last one of the path under which the program was called. -/
def commandName (invocation : Invocation) : Text :=
  Path.lastName invocation.program

def refusal (invocation : Invocation) (fault : Arguments.Fault) : Text :=
  fault.message ++ "\nRun " ++ invocation.commandName ++ " --help for more information.\n"

def run (invocation : Invocation) (world : World) : Exit World :=
  match signature.parse invocation.arguments with
  | .error fault =>
    { status := 1, output := [], errors := Utf8.encode (invocation.refusal fault), world }
  | .ok .help =>
    { status := 0
      output := Utf8.encode (explanation.render invocation.commandName ++ ['\n'])
      errors := []
      world }
  | .ok (.taken reading) => invocation.session platform reading world

end Invocation

end CommandShell
