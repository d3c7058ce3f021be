import CommandShell.Arguments
import CommandShell.Failure

/-!
The built-in commands: their names, what each takes, how each explains itself, and the request
that an argument list stands for. Operands are free-form, so that `cd -` and `exit -1` need no
quoting: only a leading `--help` is an option.
-/

namespace CommandShell

inductive Builtin
  | exit
  | cd
  | help
  | env
  | setenv
  | unsetenv
  | alias
  | history
  deriving DecidableEq, Repr

namespace Builtin

def all : List Builtin :=
  [.exit, .cd, .help, .env, .setenv, .unsetenv, .alias, .history]

def name : Builtin → Text
  | .exit => "exit"
  | .cd => "cd"
  | .help => "help"
  | .env => "env"
  | .setenv => "setenv"
  | .unsetenv => "unsetenv"
  | .alias => "alias"
  | .history => "history"

def find? (name : Text) : Option Builtin :=
  all.find? (·.name == name)

def operands : Builtin → List Arguments.Operand
  | .exit => [{ name := "status", arity := .optional }]
  | .cd => [{ name := "target", arity := .optional }]
  | .help => [{ name := "topic", arity := .optional }]
  | .env => []
  | .setenv => [{ name := "name", arity := .required }, { name := "value", arity := .required }]
  | .unsetenv => [{ name := "names", arity := .all }]
  | .alias => [{ name := "definitions", arity := .all }]
  | .history => []

def signature (builtin : Builtin) : Arguments.Signature :=
  { flags := [], operands := builtin.operands }

def explanation : Builtin → Arguments.Usage
  | .exit =>
    { synopsis := " [--] [<status>]"
      about := "Exit the shell with status N, or with the status of the last command."
      operands :=
        [("status", ["exit status; a non-negative integer, taken modulo 256."])]
      flags := [] }
  | .cd =>
    { synopsis := " [--] [<target>]"
      about :=
        "Change the current working directory. Without a target goes to $HOME; ".toList ++
          "\"-\" goes back to $OLDPWD and prints it."
      operands :=
        [("target",
          ["directory to switch to; absolute or relative to the current", "directory."])]
      flags := [] }
  | .help =>
    { synopsis := " [--] [<topic>]"
      about := "Show usage of the built-in commands."
      operands := [("topic", ["built-in to describe; all of them are listed when omitted."])]
      flags := [] }
  | .env =>
    { synopsis := ""
      about := "Print the environment, one NAME=VALUE per line."
      operands := []
      flags := [] }
  | .setenv =>
    { synopsis := " [--] <name> <value>"
      about := "Set an environment variable for commands started from now on."
      operands := [("name", ["variable name."]), ("value", ["new value."])]
      flags := [] }
  | .unsetenv =>
    { synopsis := " [names...]"
      about := "Remove environment variables."
      operands := []
      flags := [] }
  | .alias =>
    { synopsis := " [definitions...]"
      about :=
        "Define or display aliases. NAME=VALUE defines an alias, ".toList ++
          "NAME alone prints it, no argument prints all."
      operands := []
      flags := [] }
  | .history =>
    { synopsis := ""
      about := "List the command history, oldest first, as \"INDEX LINE\"."
      operands := []
      flags := [] }

def usage (builtin : Builtin) : Text :=
  builtin.explanation.render builtin.name

/-- What the list of all built-ins shows of one. -/
def summary (builtin : Builtin) : Text :=
  builtin.name ++ builtin.explanation.synopsis

/-- What a built-in is asked to do. -/
inductive Request
  | explain (builtin : Builtin)
  | exit (status : Option Text)
  | cd (target : Option Text)
  | help (topic : Option Text)
  | env
  | setenv (name value : Text)
  | unsetenv (names : List Text)
  | alias (definitions : List Text)
  | history
  deriving DecidableEq, Repr

def requestOf (builtin : Builtin) (operands : List Text) : Request :=
  match builtin with
  | .exit => .exit operands.head?
  | .cd => .cd operands.head?
  | .help => .help operands.head?
  | .env => .env
  | .setenv => .setenv (operands[0]?.getD []) (operands[1]?.getD [])
  | .unsetenv => .unsetenv operands
  | .alias => .alias operands
  | .history => .history

/-- Marks all arguments as operands, unless help is asked for in front of them. -/
def guarded (arguments : List Text) : List Text :=
  if arguments.head? = some "--help" then arguments else "--" :: arguments

def request (builtin : Builtin) (arguments : List Text) : Except Arguments.Fault Request :=
  match builtin.signature.parse (guarded arguments) with
  | .error fault => .error fault
  | .ok .help => .ok (.explain builtin)
  | .ok (.taken reading) => .ok (builtin.requestOf reading.operands)

/-- A refused argument list is reported in one line. -/
def refusal (builtin : Builtin) (fault : Arguments.Fault) : Failure :=
  .usage builtin.name (Text.collapseSpace fault.message)

end Builtin

end CommandShell
