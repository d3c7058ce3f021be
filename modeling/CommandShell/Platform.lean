import CommandShell.Chain
import CommandShell.Fault
import CommandShell.Path
import CommandShell.Text.Utf8

/-!
What a session asks of the system it runs on: files, the working directory of the process, and
children. A platform is a record of answers over states of its own, so that a statement about
sessions can speak of every system and every behaviour of children at once.
-/

namespace CommandShell

/-- A change to a file: lines put behind its content, or in the place of it. -/
structure Update where
  replaces : Bool
  lines : List Text
  deriving DecidableEq, Repr

def Update.bytes (update : Update) : Bytes :=
  update.lines.flatMap fun line => Utf8.encode line ++ [10]

/-- A child to be started: the file to run, the name it is told to have, and all it inherits. -/
structure Launch where
  program : Path
  name : Text
  arguments : List Text
  bindings : List (Bytes × Bytes)
  directory : Path

/-- The bindings that reach a child: of several of one name, the last. -/
def lastBindings : List (Bytes × Bytes) → List (Bytes × Bytes)
  | [] => []
  | entry :: rest =>
    if rest.any (·.1 == entry.1) then lastBindings rest else entry :: lastBindings rest

/-- No system can pass a NUL to a child. -/
def Launch.holdsNul (launch : Launch) : Bool :=
  (launch.program :: launch.name :: launch.directory :: launch.arguments).any (·.contains '\x00') ||
    (lastBindings launch.bindings).any fun (name, value) => name.contains 0 || value.contains 0

inductive Channel
  | output
  | error
  deriving DecidableEq, Repr

/-- The signals that end a process. -/
structure Signal where
  number : Nat
  positive : 1 ≤ number
  le_limit : number ≤ 64
  deriving DecidableEq, Repr

inductive Ending
  | exited (code : Fin 256)
  | killed (signal : Signal)
  deriving DecidableEq, Repr

def Ending.status : Ending → Status
  | .exited code => (code.val : Int)
  | .killed signal => 128 + (signal.number : Int)

structure ChildRun (World : Type) where
  ending : Ending
  printed : List (Channel × Bytes)
  world : World

/-- An opened file: its content in a later state. -/
abbrev OpenFile (World : Type) := World → Except Fault Bytes

structure Platform (World : Type) where
  /-- Whether a path leads to a regular file. -/
  isRegular : World → Path → Bool
  /-- The absolute path without links and dots that leads to the same place. -/
  canonical? : World → Path → Option Path
  /-- Makes a directory the working directory of the process. -/
  enter? : World → Path → Option World
  workingDirectory? : World → Option Path
  openFile : World → Path → Except Fault (OpenFile World)
  update : World → Path → Update → World × Except FileFault Unit
  launch : World → Launch → Except Fault (ChildRun World)

/-- The content of a file, read at once. -/
def Platform.read {World : Type} (platform : Platform World) (world : World) (path : Path) :
    Except FileFault Bytes :=
  match platform.openFile world path with
  | .error fault => .error (.opening fault)
  | .ok file => (file world).mapError .transfer

end CommandShell
