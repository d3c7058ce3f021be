import CommandShell.Host.Echo
import CommandShell.Host.FileSystem
import CommandShell.Host.Script

/-!
Starting a child on the host: the directory is entered first, then the file is run. A file that is
no program of the system has to be executable and to name its interpreter in its first line.
-/

namespace CommandShell.Host

def isBlankByte (byte : UInt8) : Bool :=
  byte = 32 || byte = 9

/-- How many bytes of a program are looked at for its interpreter. -/
def headLength : Nat := 256

/-- The rest of the line behind `#!`, without blanks at its end. Where no line ends within the head
of the program, the name of the interpreter has to end there. -/
def interpreterLine? (head : Bytes) : Option Bytes :=
  let trimmed (line : Bytes) := (line.reverse.dropWhile isBlankByte).reverse
  if (head.takeWhile (· != 0)).contains 10 then
    some (trimmed (head.takeWhile (· != 10)))
  else if (head.dropWhile isBlankByte).any fun byte => isBlankByte byte || byte = 0 then
    some (trimmed head.dropLast)
  else none

/-- An interpreter and its optional argument, named by the first line of a file. What follows the
file counts as zero bytes, which end the name and the argument. -/
def interpreter? (content : Bytes) : Option (Path × List Text) :=
  match (content ++ List.replicate headLength 0).take headLength with
  | 35 :: 33 :: head =>
    match (interpreterLine? head).map (·.dropWhile isBlankByte) with
    | none | some [] => none
    | some line =>
      let endsName (byte : UInt8) := isBlankByte byte || byte = 0
      let path := Utf8.decodeLossy (line.takeWhile (!endsName ·))
      match line.dropWhile (!endsName ·) with
      | [] | 0 :: _ => some (path, [])
      | rest => some (path, [Utf8.decodeLossy ((rest.dropWhile isBlankByte).takeWhile (· != 0))])
  | _ => none

/-- How many interpreters may stand behind one another. -/
def maxInterpreters : Nat := 4

/-- A program of the system, the name that it is told to have, and its arguments. -/
structure Command where
  tool : Tool
  name : Text
  arguments : List Text

/-- What runs in the end. An interpreter is told the name that the file gives it. -/
def command (files : FileSystem) (place : Place) :
    Nat → Path → Text → List Text → Except Fault Command
  | fuel, path, name, arguments =>
    match files.find place path with
    | .error fault => .error fault
    | .ok (_, .tool tool) => .ok { tool, name, arguments }
    | .ok (_, .file content true) =>
      match interpreter? content with
      | none => .error .badFormat
      | some ([], _) => .error .denied
      | some (path', options) =>
        match fuel with
        | 0 => .error .tooManyLinks
        | fuel + 1 => command files place fuel path' path' (options ++ path :: arguments)
    | .ok _ => .error .denied

/-- The bindings that reach a child stand in the order of their names. -/
def distinct (bindings : List (Bytes × Bytes)) : List (Bytes × Bytes) :=
  (lastBindings bindings).mergeSort fun left right => left.1 ≤ right.1

/-- How many bytes one argument or binding may have. -/
def maxArgument : Nat := 131071

/-- How much room all arguments and bindings may take up together. -/
def maxArguments : Nat := 2097152

/-- Whether an argument or a binding is too long for the system, or all of them together are. Each
is ended by a zero byte, and takes up an address. -/
def isTooLong (launch : Launch) : Bool :=
  let arguments := (launch.name :: launch.arguments).map fun text => (Utf8.encode text).length
  let bindings := (distinct launch.bindings).map fun (name, value) =>
    name.length + 1 + value.length
  let lengths := arguments ++ bindings
  let start := (Utf8.encode launch.program).length + 1
  lengths.any (maxArgument < ·) ||
    maxArguments < lengths.foldl (fun total length => total + length + 9) start

/-- The command that a launch comes to. A file that cannot be run is refused before its arguments
are. -/
def prepared (files : FileSystem) (place : Place) (launch : Launch) : Except Fault Command :=
  let runs :=
    match files.find place launch.program with
    | .ok (_, .tool _) | .ok (_, .file _ true) => true
    | _ => false
  if runs && isTooLong launch then .error .argumentsTooLong
  else command files place maxInterpreters launch.program launch.name launch.arguments

/-- The variables that a script starts with; of two the first one counts. The working directory is
taken from the variable for it when that leads there. -/
def scriptVariables (files : FileSystem) (place : Place) (bindings : List (Bytes × Bytes)) :
    List (Text × Bytes) :=
  let inherited := (distinct bindings).reverse.filterMap fun (name, value) =>
    let entry := Utf8.decodeLossy name ++ '=' :: Utf8.decodeLossy value
    let whole := name ++ 61 :: value
    let key := entry.takeWhile (· != '=')
    if (key.head?.any Variable.startsName) && key.all Variable.continuesName then
      some (key, whole.drop ((Utf8.encode key).length + 1))
    else none
  let told := (inherited.find? (·.1 == "PWD".toList)).map (·.2)
  let leads := told.any fun value =>
    let path := Utf8.decodeLossy value
    Path.isAbsolute path && (files.find place path).toOption.any (·.1 == place)
  if leads then inherited else ("PWD", Utf8.encode (FileSystem.pathOf place.location)) :: inherited

structure Process where
  files : FileSystem
  place : Place
  processId : Nat
  name : Text
  bindings : List (Bytes × Bytes)

def Process.runScript (process : Process) (name : Text) (arguments : List Text) (text : Text) :
    Ending × List (Channel × Bytes) :=
  let state : Script.State :=
    { name := Utf8.encode name
      arguments := arguments.map Utf8.encode
      bindings := scriptVariables process.files process.place process.bindings
      processId := process.processId
      status := 0
      printed := []
      ending := none }
  (state.runScript text).result

def Process.refuse (process : Process) (message : Text) : Ending × List (Channel × Bytes) :=
  (Script.exited 2, [(.error, Utf8.encode (process.name ++ ": 0: " ++ message ++ "\n"))])

def Process.run (process : Process) (arguments : List Text) :
    Tool → Ending × List (Channel × Bytes)
  | .succeed => (Script.exited 0, [])
  | .fail => (Script.exited 1, [])
  | .echo => (Script.exited 0, [(.output, Echo.printed arguments)])
  | .sh =>
    match arguments with
    | [] => (Script.exited 0, [])
    | [['-', 'c']] => process.refuse "-c requires an argument"
    | ['-', 'c'] :: text :: rest =>
      process.runScript (rest.head?.getD process.name) (rest.drop 1) text
    | path :: rest =>
      match process.files.find process.place path with
      | .ok (_, .file content _) => process.runScript path rest (Utf8.decodeLossy content)
      | .ok _ => (Script.exited 0, [])
      | .error _ => process.refuse ("cannot open " ++ path ++ ": No such file")

end CommandShell.Host
