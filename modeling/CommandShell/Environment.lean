import CommandShell.Bindings
import CommandShell.Text.Utf8

/-!
The environment of a session. It starts as a copy of the block that the session inherits and is
handed to children; commands change the copy only.
-/

namespace CommandShell

structure Environment where
  bindings : Bindings
  /-- Inherited entries whose name or value is not UTF-8: commands cannot see them, children
  receive them unchanged. -/
  hidden : List (Bytes × Bytes)
  /-- Where commands run. -/
  directory : Text

namespace Environment

def ofPairs (pairs : List (Text × Text)) (directory : Text) : Environment :=
  { bindings := Bindings.ofList pairs, hidden := [], directory }

/-- The name and the value of an entry of a block. The first `=` behind the first byte stands
between them; an entry without one is none. -/
def entry? : Bytes → Option (Bytes × Bytes)
  | [] => none
  | first :: rest =>
    match rest.dropWhile (· != 61) with
    | [] => none
    | _ :: value => some (first :: rest.takeWhile (· != 61), value)

/-- Adds an inherited entry as it stands, behind those before it. -/
def inherit (environment : Environment) (entry : Bytes × Bytes) : Environment :=
  match Utf8.decode? entry.1, Utf8.decode? entry.2 with
  | some name, some value =>
    { environment with bindings := ⟨environment.bindings.toList ++ [(name, value)]⟩ }
  | _, _ => { environment with hidden := environment.hidden ++ [entry] }

def capture (block : List (Bytes × Bytes)) (directory : Text) : Environment :=
  block.foldl inherit { bindings := Bindings.empty, hidden := [], directory }

def get? (environment : Environment) (name : Text) : Option Text :=
  environment.bindings.get? name

def hides (environment : Environment) (name : Text) : Bool :=
  environment.hidden.any (·.1 == Utf8.encode name)

def reveal (environment : Environment) (name : Text) : Environment :=
  { environment with hidden := environment.hidden.filter (·.1 != Utf8.encode name) }

def set (environment : Environment) (name value : Text) : Environment :=
  let shown := environment.reveal name
  { shown with bindings := shown.bindings.put name value }

def unset (environment : Environment) (name : Text) : Environment :=
  let shown := environment.reveal name
  { shown with bindings := shown.bindings.erase name }

def isSet (environment : Environment) (name : Text) : Bool :=
  environment.hides name || (environment.get? name).isSome

/-- The bindings handed to a child, in order; of two with one name the later one counts. -/
def childBindings (environment : Environment) : List (Bytes × Bytes) :=
  environment.hidden ++
    environment.bindings.toList.map fun (name, value) => (Utf8.encode name, Utf8.encode value)

/-- The value that a child finds for a name. -/
def childValue? (environment : Environment) (name : Bytes) : Option Bytes :=
  (environment.childBindings.reverse.find? (·.1 == name)).map (·.2)

end Environment

end CommandShell
