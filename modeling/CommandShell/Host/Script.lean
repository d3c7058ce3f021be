import CommandShell.Platform
import CommandShell.Text.Decimal
import CommandShell.Variable

/-!
Scripts that children run: simple commands and loops over words, with quotes and parameters. The
values in a script are bytes, since arguments and variables need not be text.
-/

namespace CommandShell.Host.Script

inductive Parameter
  | count
  | all
  | process
  | status
  | position (index : Nat)
  | named (name : Text) (fallback : Option Text)
  deriving DecidableEq, Repr

/-- A part of a word; what is quoted is not split. -/
inductive Part
  | literal (text : Text)
  | parameter (parameter : Parameter) (quoted : Bool)
  deriving DecidableEq, Repr

abbrev Word := List Part

inductive Token
  | word (word : Word)
  | semicolon
  | lineEnd
  | toError
  deriving DecidableEq, Repr

/-- Reads what stands behind a dollar sign. -/
def parameter? : Text → Option (Parameter × Text)
  | '#' :: rest => some (.count, rest)
  | '@' :: rest => some (.all, rest)
  | '$' :: rest => some (.process, rest)
  | '?' :: rest => some (.status, rest)
  | '\x7b' :: rest =>
    let name := rest.takeWhile Variable.continuesName
    match rest.dropWhile Variable.continuesName with
    | '\x7d' :: rest => some (.named name none, rest)
    | '-' :: rest =>
      some (.named name (some (rest.takeWhile (· != '\x7d'))),
        (rest.dropWhile (· != '\x7d')).drop 1)
    | _ => none
  | first :: rest =>
    if first.isDigit then
      some (.position (first.toNat - '0'.toNat), rest)
    else if Variable.startsName first then
      some (.named (first :: rest.takeWhile Variable.continuesName) none,
        rest.dropWhile Variable.continuesName)
    else
      none
  | [] => none

/-- Cuts a script into tokens. The word that is being read is given with its parts so far, the
quote with its character; each step of the fuel takes at least one character. -/
def scan : Nat → Option Char → Option Word → Text → List Token
  | 0, _, word, _ | _, _, word, [] => word.toList.map .word
  | fuel + 1, some '\'', word, character :: rest =>
    if character == '\'' then scan fuel none word rest
    else scan fuel (some '\'') (some (word.getD [] ++ [.literal [character]])) rest
  | fuel + 1, some quote, word, character :: rest =>
    let add (part : Part) := some (word.getD [] ++ [part])
    if character == quote then scan fuel none word rest
    else if character == '\\' && (rest.head?.any fun next => "$\"\\".toList.contains next) then
      scan fuel (some quote) (add (.literal (rest.take 1))) (rest.drop 1)
    else if character == '$' then
      match parameter? rest with
      | some (parameter, rest) => scan fuel (some quote) (add (.parameter parameter true)) rest
      | none => scan fuel (some quote) (add (.literal "$")) rest
    else scan fuel (some quote) (add (.literal [character])) rest
  | fuel + 1, none, word, character :: rest =>
    let add (part : Part) := some (word.getD [] ++ [part])
    let done := word.toList.map Token.word
    if Text.isBlank character then done ++ scan fuel none none rest
    else if character == '\n' then done ++ .lineEnd :: scan fuel none none rest
    else if character == ';' then done ++ .semicolon :: scan fuel none none rest
    else if character == '#' && word.isNone then
      scan fuel none none (rest.dropWhile (· != '\n'))
    else if character == '>' && rest.take 2 == "&2".toList then
      .toError :: scan fuel none none (rest.drop 2)
    else if character == '\'' || character == '"' then
      scan fuel (some character) (some (word.getD [])) rest
    else if character == '\\' then
      scan fuel none (add (.literal (rest.take 1))) (rest.drop 1)
    else if character == '$' then
      match parameter? rest with
      | some (parameter, rest) => scan fuel none (add (.parameter parameter false)) rest
      | none => scan fuel none (add (.literal "$")) rest
    else scan fuel none (add (.literal [character])) rest

/-- A simple command, with the line that it stands on. -/
structure Simple where
  line : Nat
  words : List Word
  toError : Bool
  deriving DecidableEq, Repr

def commands (line : Nat) (current : Simple) : List Token → List Simple
  | [] => if current.words.isEmpty then [] else [current]
  | .word word :: rest => commands line { current with words := current.words ++ [word] } rest
  | .toError :: rest => commands line { current with toError := true } rest
  | .semicolon :: rest =>
    (if current.words.isEmpty then [] else [current]) ++ commands line ⟨line, [], false⟩ rest
  | .lineEnd :: rest =>
    (if current.words.isEmpty then [] else [current]) ++
      commands (line + 1) ⟨line + 1, [], false⟩ rest

inductive Statement
  | simple (command : Simple)
  | forEach (name : Text) (items : List Word) (body : List Simple)
  deriving DecidableEq, Repr

def plain (word : Word) : Text :=
  word.flatMap fun
    | .literal text => text
    | .parameter _ _ => []

def keyword (command : Simple) : Text :=
  (command.words.head?.map plain).getD []

def withoutDo (command : Simple) : Simple :=
  if keyword command = "do" then { command with words := command.words.drop 1 } else command

def statements : Nat → List Simple → List Statement
  | 0, _ | _, [] => []
  | fuel + 1, command :: rest =>
    if keyword command = "for" then
      let body := rest.takeWhile (keyword · != "done")
      .forEach ((command.words[1]?.map plain).getD []) (command.words.drop 3)
          ((body.map withoutDo).filter (!·.words.isEmpty)) ::
        statements fuel ((rest.dropWhile (keyword · != "done")).drop 1)
    else
      .simple command :: statements fuel rest

def parse (text : Text) : List Statement :=
  let found := commands 1 ⟨1, [], false⟩ (scan (text.length + 1) none none text)
  statements (found.length + 1) found

/-- A running script. -/
structure State where
  name : Bytes
  arguments : List Bytes
  bindings : List (Text × Bytes)
  processId : Nat
  status : Nat
  printed : List (Channel × Bytes)
  ending : Option Ending

def ascii (text : Text) : Bytes :=
  Utf8.encode text

def State.binding? (state : State) (name : Text) : Option Bytes :=
  (state.bindings.find? (·.1 == name)).map (·.2)

def State.value (state : State) : Parameter → Bytes
  | .count => ascii (Decimal.ofNat state.arguments.length)
  | .all => (ascii " ").intercalate state.arguments
  | .process => ascii (Decimal.ofNat state.processId)
  | .status => ascii (Decimal.ofNat state.status)
  | .position 0 => state.name
  | .position (index + 1) => state.arguments[index]?.getD []
  | .named name fallback => (state.binding? name).getD (ascii (fallback.getD []))

def splitsFields (byte : UInt8) : Bool :=
  byte == 32 || byte == 9 || byte == 10

/-- Adds a value to the fields of a word; the last field is the one that is still open. -/
def addFields (fields : List Bytes) (pieces : List Bytes) : List Bytes :=
  match pieces with
  | [] => fields
  | first :: others =>
    match fields.getLast? with
    | none => first :: others
    | some last => fields.dropLast ++ [last ++ first] ++ others

def State.addPart (state : State) (fields : List Bytes) : Part → List Bytes
  | .literal text => addFields fields [ascii text]
  | .parameter .all true => addFields fields state.arguments
  | .parameter parameter true => addFields fields [state.value parameter]
  | .parameter parameter false =>
    addFields fields ((Text.pieces splitsFields (state.value parameter)).filter (!·.isEmpty))

/-- The fields that a word becomes; a word of quotes alone becomes one that is empty. -/
def State.fieldsOf (state : State) (word : Word) : List Bytes :=
  if word.isEmpty then [[]] else word.foldl state.addPart []

def State.print (state : State) (command : Simple) (bytes : Bytes) : State :=
  { state with
    printed := state.printed ++ [(if command.toError then .error else .output, bytes)]
    status := 0 }

def exited (code : Nat) : Ending :=
  .exited ⟨code % 256, Nat.mod_lt _ (by decide)⟩

/-- A fault in a command of the language itself ends the script. -/
def State.abort (state : State) (command : Simple) (name message : Text) : State :=
  { state with
    printed := state.printed ++
      [(.error, state.name ++
        ascii (": " ++ Decimal.ofNat command.line ++ ": " ++ name ++ ": " ++ message ++ "\n"))]
    ending := some (exited 2) }

def signalNames : List Text :=
  ["HUP", "INT", "QUIT", "ILL", "TRAP", "ABRT", "BUS", "FPE", "KILL", "USR1", "SEGV", "USR2",
    "PIPE", "ALRM", "TERM", "16", "CHLD", "CONT", "STOP", "TSTP", "TTIN", "TTOU", "URG",
    "XCPU", "XFSZ", "VTALRM", "PROF", "WINCH", "IO", "PWR", "SYS"]

/-- The signals that leave a process running. -/
def harmless : List Nat :=
  [0, 17, 18, 19, 20, 21, 22, 23, 28]

def signalNumber? (text : Text) : Option Nat :=
  match Decimal.readFrom 65 0 text with
  | .ok number => if text.isEmpty then none else some number
  | .error _ =>
    let name := text.map Char.toUpper
    if name = "RTMIN" then some 34
    else if name = "RTMAX" then some 64
    else (signalNames.findIdx? (· == name)).map (· + 1)

def State.kill (state : State) (command : Simple) (signal : Text) : State :=
  match signalNumber? signal with
  | some number =>
    if signals : 1 ≤ number ∧ number ≤ 64 ∧ !harmless.contains number then
      { state with ending := some (.killed ⟨number, signals.1, signals.2.1⟩) }
    else
      { state with status := 0 }
  | none =>
    match signal with
    | [] => state.abort command "kill" "Illegal number: "
    | first :: _ => state.abort command "kill" ("Illegal option -" ++ [first])

/-- The operand of a script's `exit`; of the numbers with a minus sign only zero is one. -/
def exitCode? (text : Text) : Option Nat :=
  match text with
  | '-' :: digits => if digits.isEmpty || !digits.all (· == '0') then none else some 0
  | text => (Decimal.read Decimal.statusBound text).toOption

def State.exit (state : State) (command : Simple) (operand : Option Text) : State :=
  match operand with
  | none => { state with ending := some (exited state.status) }
  | some text =>
    match exitCode? text with
    | some code => { state with ending := some (exited code) }
    | none => state.abort command "exit" ("Illegal number: " ++ text)

/-- The bytes that letters behind a backslash stand for. -/
def escapes : List (UInt8 × UInt8) :=
  [(92, 92), (97, 7), (98, 8), (102, 12), (110, 10), (114, 13), (116, 9), (118, 11)]

def unescape : Bytes → Bytes
  | 92 :: letter :: rest =>
    match escapes.find? (·.1 == letter) with
    | some (_, byte) => byte :: unescape rest
    | none => 92 :: letter :: unescape rest
  | byte :: rest => byte :: unescape rest
  | [] => []

/-- One pass over a format: the bytes, and the arguments that are left. -/
def formatOnce : Bytes → List Bytes → Bytes × List Bytes
  | 37 :: 37 :: rest, arguments =>
    let (bytes, arguments) := formatOnce rest arguments
    (37 :: bytes, arguments)
  | 37 :: _ :: rest, arguments =>
    let (bytes, left) := formatOnce rest (arguments.drop 1)
    (arguments.head?.getD [] ++ bytes, left)
  | byte :: rest, arguments =>
    let (bytes, arguments) := formatOnce rest arguments
    (byte :: bytes, arguments)
  | [], arguments => ([], arguments)

/-- A format is used again while arguments are left. -/
def format : Nat → Bytes → List Bytes → Bytes
  | 0, _, _ => []
  | fuel + 1, template, arguments =>
    let (bytes, left) := formatOnce template arguments
    if left.isEmpty || left.length = arguments.length then bytes
    else bytes ++ format fuel template left

def spaced (arguments : List Bytes) : Bytes :=
  (ascii " ").intercalate arguments

def echoed (arguments : List Bytes) : Bytes :=
  match arguments with
  | [45, 110] :: rest => spaced rest
  | _ => spaced arguments ++ [10]

def State.run (state : State) (command : Simple) : State :=
  if state.ending.isSome then state
  else
    match command.words.flatMap state.fieldsOf with
    | [] => state
    | name :: arguments =>
      match String.ofList (Utf8.decodeLossy name) with
      | "echo" => state.print command (unescape (echoed arguments))
      | "printf" =>
        let template := unescape (arguments.head?.getD [])
        state.print command (format (arguments.length + 1) template (arguments.drop 1))
      | "exit" => state.exit command (arguments.head?.map Utf8.decodeLossy)
      | "kill" =>
        state.kill command (((arguments.head?.map Utf8.decodeLossy).getD []).drop 1)
      | "true" | ":" => { state with status := 0 }
      | "false" => { state with status := 1 }
      | _ =>
        { state with
          printed := state.printed ++
            [(.error, state.name ++ ascii (": " ++ Decimal.ofNat command.line ++ ": ") ++ name ++
              ascii ": not found\n")]
          status := 127 }

def State.assign (state : State) (name : Text) (value : Bytes) : State :=
  { state with bindings := (name, value) :: state.bindings }

def State.perform (state : State) : Statement → State
  | .simple command => state.run command
  | .forEach name items body =>
    (items.flatMap state.fieldsOf).foldl
      (fun state item => body.foldl State.run (state.assign name item)) state

/-- Runs a script to its end, which is the status of its last command when nothing ended it. -/
def State.runScript (state : State) (text : Text) : State :=
  (parse text).foldl State.perform state

def State.result (state : State) : Ending × List (Channel × Bytes) :=
  (state.ending.getD (exited state.status), state.printed)

end CommandShell.Host.Script
