import CommandShell.Chain
import CommandShell.Text

/-!
Why a command failed, the words in which that is reported, and the status it leaves.
-/

namespace CommandShell

inductive OutputFault
  | limitReached
  | flushRefused
  deriving DecidableEq, Repr

def OutputFault.message : OutputFault → Text
  | .limitReached => "output limit reached"
  | .flushRefused => "flush refused"

inductive Failure
  | notFound (command : Text)
  | cannotExecute (command reason : Text)
  | illegalNumber (operand : Text)
  | cannotEnter (target : Text)
  | usage (command message : Text)
  | builtin (command message : Text)
  /-- The failure lies outside the command language, as with output that is refused. -/
  | foreign (message : Text)
  deriving DecidableEq, Repr

namespace Failure

def message : Failure → Text
  | .notFound command => command ++ ": not found"
  | .cannotExecute command reason => command ++ ": " ++ reason
  | .illegalNumber operand => "exit: Illegal number: " ++ operand
  | .cannotEnter target => "cd: can't cd to " ++ target
  | .usage command message => command ++ ": " ++ message
  | .builtin command message => command ++ ": " ++ message
  | .foreign message => message

def status : Failure → Status
  | .notFound _ => 127
  | .cannotExecute _ _ => 126
  | .illegalNumber _ | .cannotEnter _ | .usage _ _ => 2
  | .builtin _ _ | .foreign _ => 1

/-- The words of a report; a foreign failure does not know the command that it struck. -/
def report (command : Text) : Failure → Text
  | .foreign message => command ++ ": " ++ message
  | failure => failure.message

end Failure

end CommandShell
