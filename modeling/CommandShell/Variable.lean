import CommandShell.Bindings
import CommandShell.Chain
import CommandShell.Text.Decimal

/-!
References inside a word: `$$` is the process, `$?` the last status, and `$NAME` a variable. A
word is read once from the left as a sequence of tokens, and each token stands for its value, so
that a value is never read again.
-/

namespace CommandShell.Variable

def startsName (character : Char) : Bool :=
  character.isAlpha || character == '_'

def continuesName (character : Char) : Bool :=
  startsName character || character.isDigit

inductive Token
  | process
  | status
  | variable (name : Text)
  | literal (character : Char)
  deriving DecidableEq, Repr

def Token.spelling : Token → Text
  | .process => "$$"
  | .status => "$?"
  | .variable name => '$' :: name
  | .literal character => [character]

/-- A name takes as many characters as it can; a `$` that starts no reference is literal. -/
def tokens : Text → List Token
  | [] => []
  | '$' :: '$' :: rest => .process :: tokens rest
  | '$' :: '?' :: rest => .status :: tokens rest
  | '$' :: character :: rest =>
    if startsName character then
      .variable (character :: rest.takeWhile continuesName) ::
        tokens (rest.dropWhile continuesName)
    else
      .literal '$' :: tokens (character :: rest)
  | character :: rest => .literal character :: tokens rest
termination_by word => word.length
decreasing_by
  all_goals simp only [List.length_cons]
  all_goals first
    | omega
    | exact Nat.lt_succ_of_lt (Nat.lt_succ_of_le (List.dropWhile_suffix _).length_le)

/-- What references stand for. -/
structure Context where
  bindings : Bindings
  status : Status
  processId : Nat

def Context.value (context : Context) : Token → Text
  | .process => Decimal.ofNat context.processId
  | .status => Decimal.ofInt context.status
  | .variable name => (context.bindings.get? name).getD []
  | .literal character => [character]

def Context.expand (context : Context) (word : Text) : Text :=
  (tokens word).flatMap context.value

end CommandShell.Variable
