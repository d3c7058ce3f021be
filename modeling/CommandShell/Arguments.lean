import CommandShell.Text.Decimal
import CommandShell.Text.Space

/-!
Argument lists: which options and operands a command takes, how a list is read, and what is wrong
with one that does not fit. Options are known by their whole spelling only.
-/

namespace CommandShell

namespace Arguments

inductive ValueKind
  | text
  | size
  deriving DecidableEq, Repr

/-- An option is a switch, or takes the next argument as its value. -/
structure Flag where
  name : Text
  spellings : List Text
  takes : Option ValueKind
  deriving DecidableEq, Repr

inductive Arity
  | required
  | optional
  /-- Takes all arguments that are left; none of them is an option. -/
  | all
  deriving DecidableEq, Repr

structure Operand where
  name : Text
  arity : Arity
  deriving DecidableEq, Repr

structure Signature where
  flags : List Flag
  operands : List Operand
  deriving DecidableEq, Repr

inductive ValueFault
  | duplicate
  | notSize (fault : Decimal.Fault)
  deriving DecidableEq, Repr

inductive Fault
  | unrecognized (argument : Text)
  | behindHelp
  | noValue (flag : Text)
  | badValue (flag value : Text) (fault : ValueFault)
  | missing (names : List Text)
  deriving DecidableEq, Repr

def ValueFault.message : ValueFault → Text
  | .duplicate => "duplicate values provided"
  | .notSize fault => fault.message

def Fault.message : Fault → Text
  | .unrecognized argument => "Unrecognized argument: " ++ argument ++ "\n"
  | .behindHelp => "Trailing arguments are not allowed after `help`."
  | .noValue flag => "No value provided for option '" ++ flag ++ "'.\n"
  | .badValue flag value fault =>
    "Error parsing option '" ++ flag ++ "' with value '" ++ value ++ "': " ++ fault.message ++ "\n"
  | .missing names =>
    "Required positional arguments not provided:" ++
      names.flatMap (fun name => "\n    ".toList ++ name) ++ "\n"

/-- What was read so far. -/
structure Reading where
  helps : Bool := false
  ended : Bool := false
  switches : List Text := []
  values : List (Text × Text) := []
  operands : List Text := []
  deriving DecidableEq, Repr

def Reading.value? (reading : Reading) (flag : Text) : Option Text :=
  (reading.values.find? (·.1 == flag)).map (·.2)

/-- The operand that takes the next free argument. -/
def Signature.nextOperand? (signature : Signature) (taken : Nat) : Option Operand :=
  match signature.operands[taken]? with
  | some operand => some operand
  | none => signature.operands.getLast?.filter (·.arity = .all)

def Signature.takeOperand (signature : Signature) (reading : Reading) (argument : Text) :
    Except Fault Reading :=
  match signature.nextOperand? reading.operands.length with
  | none => .error (.unrecognized argument)
  | some operand =>
    .ok { reading with
      operands := reading.operands ++ [argument]
      ended := reading.ended || operand.arity = .all }

def Reading.takeValue (reading : Reading) (flag : Flag) (kind : ValueKind)
    (spelling value : Text) : Except Fault Reading :=
  if (reading.value? flag.name).isSome then
    .error (.badValue spelling value .duplicate)
  else
    match kind with
    | .text => .ok { reading with values := reading.values ++ [(flag.name, value)] }
    | .size =>
      match Decimal.read Decimal.sizeBound value with
      | .ok _ => .ok { reading with values := reading.values ++ [(flag.name, value)] }
      | .error fault => .error (.badValue spelling value (.notSize fault))

def asksHelp (argument : Text) : Bool :=
  argument == "--help".toList || argument == "help".toList

def Signature.read (signature : Signature) (reading : Reading) :
    List Text → Except Fault Reading
  | [] => .ok reading
  | argument :: rest =>
    if reading.ended then
      match signature.takeOperand reading argument with
      | .ok reading => signature.read reading rest
      | .error fault => .error fault
    else if asksHelp argument then
      signature.read { reading with helps := true } rest
    else if argument.head? ≠ some '-' then
      match signature.takeOperand reading argument with
      | .ok reading => signature.read reading rest
      | .error fault => .error fault
    else if argument = ['-', '-'] then
      signature.read { reading with ended := true } rest
    else if reading.helps then
      .error .behindHelp
    else
      match signature.flags.find? (·.spellings.contains argument) with
      | none => .error (.unrecognized argument)
      | some flag =>
        match flag.takes with
        | none =>
          signature.read { reading with switches := reading.switches ++ [flag.name] } rest
        | some kind =>
          match rest with
          | [] => .error (.noValue argument)
          | value :: rest =>
            match reading.takeValue flag kind argument value with
            | .ok reading => signature.read reading rest
            | .error fault => .error fault

/-- The names of required operands that got no argument. -/
def Signature.missing (signature : Signature) (reading : Reading) : List Text :=
  ((signature.operands.drop reading.operands.length).filter (·.arity = .required)).map (·.name)

inductive Outcome
  | help
  | taken (reading : Reading)
  deriving DecidableEq, Repr

/-- Reads a whole argument list; a question for help counts before missing operands do. -/
def Signature.parse (signature : Signature) (arguments : List Text) : Except Fault Outcome :=
  match signature.read {} arguments with
  | .error fault => .error fault
  | .ok reading =>
    if reading.helps then .ok .help
    else
      match signature.missing reading with
      | [] => .ok (.taken reading)
      | names => .error (.missing names)

/-- The text that explains a command: how it is called, what it does, and what it takes. -/
structure Usage where
  synopsis : Text
  about : Text
  operands : List (Text × List Text)
  flags : List (Text × List Text)

/-- The column at which descriptions stand. -/
def descriptionColumn : Nat := 20

/-- A name and its description, whose further lines stand below its first. -/
def Usage.entry : Text × List Text → Text
  | (name, description) =>
    let gap := List.replicate (descriptionColumn - 2 - name.length) ' '
    let indent := '\n' :: List.replicate descriptionColumn ' '
    "  ".toList ++ name ++ gap ++ Text.joined indent description ++ "\n"

def helpEntry : Text × List Text :=
  ("--help, help", ["display usage information"])

def Usage.render (usage : Usage) (command : Text) : Text :=
  "Usage: " ++ command ++ usage.synopsis ++ "\n\n" ++ usage.about ++ "\n" ++
    (if usage.operands.isEmpty then []
      else "\nPositional Arguments:\n".toList ++ usage.operands.flatMap Usage.entry) ++
    "\nOptions:\n".toList ++ (usage.flags ++ [helpEntry]).flatMap Usage.entry

end Arguments

end CommandShell
