import CommandShell.Text

/-!
Whole numbers in decimal. Reading goes from the left, so of a number that is both too large and
followed by something else only the fault that comes first is told.
-/

namespace CommandShell.Decimal

inductive Fault
  | empty
  | notDigit
  | tooLarge
  deriving DecidableEq, Repr

def Fault.message : Fault → Text
  | .empty => "cannot parse integer from empty string"
  | .notDigit => "invalid digit found in string"
  | .tooLarge => "number too large to fit in target type"

/-- Reads digits on behind a value, as long as the value stays below the bound. -/
def readFrom (bound value : Nat) : Text → Except Fault Nat
  | [] => .ok value
  | character :: rest =>
    if character.isDigit then
      let next := value * 10 + (character.toNat - '0'.toNat)
      if next < bound then readFrom bound next rest else .error .tooLarge
    else
      .error .notDigit

/-- Reads a number below the bound; one plus sign may stand in front of its digits. -/
def read (bound : Nat) (text : Text) : Except Fault Nat :=
  match text with
  | [] => .error .empty
  | ['+'] => .error .notDigit
  | '+' :: digits => readFrom bound 0 digits
  | digits => readFrom bound 0 digits

/-- Counts and sizes are below 2⁶⁴. -/
def sizeBound : Nat := 0x10000000000000000

/-- The operand of `exit` is below 2³¹ before it is reduced. -/
def statusBound : Nat := 0x80000000

def ofNat (value : Nat) : Text :=
  Nat.toDigits 10 value

def ofInt (value : Int) : Text :=
  match value with
  | .ofNat magnitude => ofNat magnitude
  | .negSucc magnitude => '-' :: ofNat (magnitude + 1)

end CommandShell.Decimal
