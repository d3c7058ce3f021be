import CommandShell.Environment
import CommandShell.History
import CommandShell.Text.Decimal
import CommandShell.Text.Space

/-!
The settings of a session, as the environment gives them.
-/

namespace CommandShell

/-- Where the lines of a session come from. -/
inductive LineSource
  | terminal
  | pipe
  | script (path : Path)
  | command (line : Text)
  deriving DecidableEq, Repr

def LineSource.isInteractive (source : LineSource) : Bool :=
  source = .terminal

structure Settings where
  /-- Without a file the history is kept in memory only. -/
  historyFile? : Option Path
  historyLimit : Nat
  historySync : History.Sync
  startupFile? : Option Path
  deriving DecidableEq, Repr

namespace Settings

def prompt : Text := "$ "

/-- The name of the history file in the home directory. -/
def historyName : Text := ".simple_shell_history"

/-- The name of the startup file in the home directory. -/
def startupName : Text := ".hshrc"

def defaultLimit : Nat := 4096

def historyIn (home : Path) : Path :=
  Path.join home historyName

def startupIn (home : Path) : Path :=
  Path.join home startupName

/-- A variable that is set to something. -/
def given? (environment : Environment) (name : Text) : Option Text :=
  (environment.get? name).filter (!·.isEmpty)

/-- A positive count, around which white space may stand. -/
def limit? (value : Text) : Option Nat :=
  match Decimal.read Decimal.sizeBound (Text.trim Text.isSpace value) with
  | .ok limit => if limit = 0 then none else some limit
  | .error _ => none

def ofEnvironment (environment : Environment) : Settings :=
  let home := given? environment "HOME"
  { historyFile? := (given? environment "HISTFILE").or (home.map historyIn)
    historyLimit := ((environment.get? "HISTSIZE").bind limit?).getD defaultLimit
    historySync := .onExit
    startupFile? := (given? environment "HSH_RC").or (home.map startupIn) }

def history (settings : Settings) : History :=
  History.new settings.historyFile? settings.historyLimit settings.historySync

end Settings

end CommandShell
