import CommandShell.History.Record
import CommandShell.Platform

/-!
The history of accepted lines: a window over the newest ones, numbered from zero, and the file in
which they outlive the session. The file is read once; it is written line by line, or once at the
end. A file that could not be read is only ever extended.
-/

namespace CommandShell

namespace History

/-- When accepted lines reach the file. -/
inductive Sync
  | onExit
  | eachLine
  deriving DecidableEq, Repr

structure Entry where
  index : Nat
  line : Text
  deriving DecidableEq, Repr

inductive Fault
  | cannotRead (path : Path) (cause : CommandShell.Fault)
  | cannotOpen (path : Path) (cause : CommandShell.Fault)
  | cannotWrite (path : Path) (cause : CommandShell.Fault)
  /-- A block of records was refused before the last one was reached. -/
  | blockRefused (cause : CommandShell.Fault)
  deriving DecidableEq, Repr

def Fault.message : Fault → Text
  | .cannotRead path cause => "can't read " ++ path ++ ": " ++ cause.message
  | .cannotOpen path cause => "can't open " ++ path ++ ": " ++ cause.message
  | .cannotWrite path cause => "can't write " ++ path ++ ": " ++ cause.message
  | .blockRefused cause => cause.message

def number (lines : List Text) : List Entry :=
  lines.mapIdx fun index line => { index, line }

/-- The newest lines, as many as the limit allows. -/
def newest (limit : Nat) (lines : List Text) : List Text :=
  lines.drop (lines.length - limit)

end History

structure History where
  entries : List History.Entry
  limit : Nat
  path? : Option Path
  sync : History.Sync
  /-- The number of records that the file is known to hold. -/
  persisted : Nat
  /-- The number of newest entries that the file does not hold yet. -/
  unsaved : Nat
  /-- Set when the file could not be read. -/
  onlyExtends : Bool

namespace History

def new (path? : Option Path) (limit : Nat) (sync : Sync) : History :=
  { entries := [], limit := max limit 1, path?, sync, persisted := 0, unsaved := 0,
    onlyExtends := false }

def lines (history : History) : List Text :=
  history.entries.map (·.line)

def renumber (history : History) : History :=
  { history with entries := number history.lines }

/-- The history after its file was read. -/
def loaded (history : History) (records : List Text) : History :=
  { history with
    entries := number (newest history.limit records)
    persisted := records.length
    unsaved := 0 }

/-- Takes up a line at the end of the window; the window moves on when it is full. -/
def record (history : History) (line : Text) : History :=
  let kept :=
    if history.limit ≤ history.entries.length then
      number (history.lines.drop (history.entries.length + 1 - history.limit))
    else
      history.entries
  let entries := kept ++ [{ index := kept.length, line }]
  { history with entries, unsaved := min (history.unsaved + 1) entries.length }

/-- What a save puts into the file: everything, or the entries that it lacks. -/
def saveUpdate (history : History) : Update :=
  if history.onlyExtends then
    { replaces := false, lines := history.lines.drop (history.entries.length - history.unsaved) }
  else
    { replaces := true, lines := history.lines }

def saved (history : History) : History :=
  { history with
    persisted :=
      if history.onlyExtends then history.persisted + history.unsaved else history.entries.length
    unsaved := 0 }

/-- A full file is written anew, and so is one that must not be replaced; any other takes the new
line at its end. -/
def savesOnAppend (history : History) : Bool :=
  history.limit ≤ history.persisted || history.onlyExtends

def appended (history : History) : History :=
  { history with persisted := history.persisted + 1, unsaved := 0 }

/-- Records are handed over in blocks of this many bytes. -/
def blockSize : Nat := 8192

/-- Whether a block is handed over before all pieces are gathered, when `gathered` bytes wait: a
piece that does not fit behind them sends them off, and one of a whole block goes off by itself. -/
def fillsBlock (gathered : Nat) : List Nat → Bool
  | [] => false
  | size :: rest =>
    blockSize < gathered + size || blockSize ≤ size || fillsBlock (gathered + size) rest

def saveFault (path : Path) (update : Update) : FileFault → Fault
  | .opening cause => .cannotOpen path cause
  | .transfer cause =>
    if fillsBlock 0 (update.lines.flatMap fun line => [(Utf8.encode line).length, 1]) then
      .blockRefused cause
    else
      .cannotWrite path cause

def appendFault (path : Path) : FileFault → Fault
  | .opening cause => .cannotOpen path cause
  | .transfer cause => .cannotWrite path cause

variable {World : Type} (platform : Platform World)

/-- Replaces the entries by the newest records of the file and counts them. A missing file leaves
everything as it is. -/
def load (world : World) (history : History) : History × Except Fault Nat :=
  match history.path? with
  | none => (history, .ok 0)
  | some path =>
    match platform.read world path with
    | .ok content =>
      let history := history.loaded (Record.parse content)
      (history, .ok history.entries.length)
    | .error fault =>
      if fault = .opening .missing then (history, .ok 0)
      else ({ history with onlyExtends := true }, .error (.cannotRead path fault.cause))

def save (world : World) (history : History) : World × History × Except Fault Unit :=
  match history.path? with
  | none => (world, history, .ok ())
  | some path =>
    match platform.update world path history.saveUpdate with
    | (world, .ok ()) => (world, history.saved, .ok ())
    | (world, .error fault) => (world, history, .error (saveFault path history.saveUpdate fault))

/-- Brings the newest entry to the file. -/
def append (world : World) (history : History) : World × History × Except Fault Unit :=
  if history.savesOnAppend then
    history.save platform world
  else
    match history.path?, history.entries.getLast? with
    | some path, some entry =>
      match platform.update world path { replaces := false, lines := [entry.line] } with
      | (world, .ok ()) => (world, history.appended, .ok ())
      | (world, .error fault) => (world, history, .error (appendFault path fault))
    | _, _ => (world, history, .ok ())

/-- Records an accepted line; the empty line is none. -/
def push (world : World) (history : History) (line : Text) :
    World × History × Except Fault Unit :=
  if line.isEmpty then
    (world, history, .ok ())
  else
    match history.sync with
    | .onExit => (world, history.record line, .ok ())
    | .eachLine => (history.record line).append platform world

/-- Ends the session's use of the file. -/
def finish (world : World) (history : History) : World × History × Except Fault Unit :=
  match history.sync with
  | .onExit => history.save platform world
  | .eachLine => (world, history, .ok ())

end History

end CommandShell
