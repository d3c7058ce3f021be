import CommandShell.Fault
import CommandShell.Path
import CommandShell.Text.Utf8

/-!
A tree of directories, files, links and devices, and the walk along a path. The walk follows
links, of which it takes no more than forty, and stops with the fault of the first name that leads
no further.
-/

namespace CommandShell.Host

/-- The programs that come with the system. -/
inductive Tool
  | sh
  | echo
  | succeed
  | fail
  deriving DecidableEq, Repr

inductive Node
  | directory
  | file (content : Bytes) (executable : Bool)
  | tool (tool : Tool)
  | link (target : Path)
  /-- Takes every byte and holds none. -/
  | sink
  /-- Has no room for any byte. -/
  | full
  deriving DecidableEq, Repr

/-- The names that lead from the root to a node. -/
abbrev Location := List Text

/-- Where a process is: at a location, or in a directory that was removed from below it. -/
structure Place where
  location : Location
  /-- How many removed directories lie on the way from the location to the place. -/
  lost : Nat
  deriving DecidableEq, Repr

structure FileSystem where
  nodes : List (Location × Node)

namespace FileSystem

def node? (files : FileSystem) (location : Location) : Option Node :=
  if location.isEmpty then some .directory
  else (files.nodes.find? (·.1 == location)).map (·.2)

def insert (files : FileSystem) (location : Location) (node : Node) : FileSystem :=
  ⟨(location, node) :: files.nodes.filter (·.1 != location)⟩

/-- Without a node and all that lies below it. -/
def removeTree (files : FileSystem) (location : Location) : FileSystem :=
  ⟨files.nodes.filter fun entry => !location.isPrefixOf entry.1⟩

def maxLinks : Nat := 40

def maxName : Nat := 255

def maxPath : Nat := 4095

/-- The steps that a path names. A slash at its end makes a last step without a name, which asks
for a directory. -/
def steps (path : Path) : List Text :=
  let names := (Text.pieces (· == '/') path).filter (!·.isEmpty)
  if path.getLast? = some '/' then names ++ [[]] else names

/-- A step that leads nowhere else. -/
def staysAt (name : Text) : Bool :=
  name.isEmpty || name = ['.']

/-- Goes the steps from a location on, and leaves it to `follow` to go on behind a link. The answer
is where the steps lead, and the node there, which is missing when only the last step found
nothing. A walk that may create a file takes a name with a slash behind it for a directory. -/
def walkWith (files : FileSystem) (creating : Bool)
    (follow : Location → List Text → Except Fault (Location × Option Node)) (location : Location) :
    List Text → Except Fault (Location × Option Node)
  | [] => .ok (location, files.node? location)
  | name :: rest =>
    match files.node? location with
    | none => .error .missing
    | some .directory =>
      if staysAt name then
        files.walkWith creating follow location rest
      else if name = ['.', '.'] then
        files.walkWith creating follow location.dropLast rest
      else if creating && rest = [[]] then
        .error .isDirectory
      else if maxName < (Utf8.encode name).length then
        .error .nameTooLong
      else
        match files.node? (location ++ [name]) with
        | none => if rest.isEmpty then .ok (location ++ [name], none) else .error .missing
        | some (.link target) =>
          follow (if Path.isAbsolute target then [] else location) (steps target ++ rest)
        | some _ => files.walkWith creating follow (location ++ [name]) rest
    | some _ => .error .notDirectory

/-- Goes the steps and takes as many links as are left. -/
def walk (files : FileSystem) (creating : Bool) :
    Nat → Location → List Text → Except Fault (Location × Option Node)
  | 0 => files.walkWith creating fun _ _ => .error .tooManyLinks
  | links + 1 => files.walkWith creating (files.walk creating links)

/-- Goes up from a place as long as it is lost. A removed directory has no entries but the way
up. -/
def climb (creating : Bool) : Nat → List Text → Except Fault (Nat × List Text)
  | 0, names => .ok (0, names)
  | lost, [] => .ok (lost, [])
  | lost + 1, name :: rest =>
    if staysAt name then climb creating (lost + 1) rest
    else if name = ['.', '.'] then climb creating lost rest
    else if creating && rest = [[]] then .error .isDirectory
    else .error .missing

def walkFrom (files : FileSystem) (creating : Bool) (place : Place) (names : List Text) :
    Except Fault (Place × Option Node) :=
  match climb creating place.lost names with
  | .error fault => .error fault
  | .ok (0, names) =>
    (files.walk creating maxLinks place.location names).map fun (location, node?) =>
      (⟨location, 0⟩, node?)
  | .ok (lost, _) => .ok (⟨place.location, lost⟩, some .directory)

/-- Absolute paths start at the root, all others at the working directory. -/
def seekSteps (files : FileSystem) (creating : Bool) (working : Place) (path : Path)
    (names : List Text) : Except Fault (Place × Option Node) :=
  if path.contains '\x00' then .error .pathHoldsNul
  else if path.isEmpty then .error .missing
  else files.walkFrom creating (if Path.isAbsolute path then ⟨[], 0⟩ else working) names

def seek (files : FileSystem) (working : Place) (path : Path) :
    Except Fault (Place × Option Node) :=
  files.seekSteps false working path (steps path)

/-- Whether a path is longer than one that can be handed to the system. -/
def isTooLong (path : Path) : Bool :=
  maxPath < (Utf8.encode path).length && !path.contains '\x00'

/-- What an existing path leads to. -/
def find (files : FileSystem) (working : Place) (path : Path) : Except Fault (Place × Node) :=
  if isTooLong path then .error .nameTooLong
  else
    match files.seek working path with
    | .error fault => .error fault
    | .ok (_, none) => .error .missing
    | .ok (place, some node) => .ok (place, node)

/-- Where a path leads whose last name may be new. -/
def findForWriting (files : FileSystem) (working : Place) (path : Path) :
    Except Fault (Place × Option Node) :=
  if isTooLong path then .error .nameTooLong
  else files.seekSteps true working path (steps path)

def pathOf (location : Location) : Path :=
  '/' :: Text.joined "/" location

end FileSystem

end CommandShell.Host
