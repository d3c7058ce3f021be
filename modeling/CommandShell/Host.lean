import CommandShell.Host.Launch

/-!
A host: a file system and the working directory of the shell's process, as a platform for
sessions.
-/

namespace CommandShell

structure Host where
  files : Host.FileSystem
  working : Host.Place

namespace Host

def bareDirectories : List Location :=
  [["boot"], ["dev"], ["etc"], ["home"], ["media"], ["mnt"], ["opt"], ["proc"], ["root"], ["run"],
    ["srv"], ["sys"], ["tmp"], ["usr"], ["usr", "bin"], ["usr", "include"], ["usr", "lib"],
    ["usr", "lib64"], ["usr", "local"], ["usr", "local", "bin"], ["usr", "sbin"],
    ["usr", "share"], ["usr", "src"], ["var"], ["var", "cache"], ["var", "lib"], ["var", "log"],
    ["var", "tmp"]]

def bareFiles : List (Location × Node) :=
  [(["bin"], .link "usr/bin"), (["lib"], .link "usr/lib"), (["lib64"], .link "usr/lib64"),
    (["sbin"], .link "usr/sbin"), (["dev", "full"], .full), (["dev", "null"], .sink),
    (["usr", "bin", "echo"], .tool .echo), (["usr", "bin", "false"], .tool .fail),
    (["usr", "bin", "sh"], .tool .sh), (["usr", "bin", "true"], .tool .succeed)]

def bareNodes : List (Location × Node) :=
  bareDirectories.map (fun location => (location, Node.directory)) ++ bareFiles

/-- The part of the system that every session finds: directories, devices, and a few programs. -/
def bare : Host :=
  { files := ⟨bareNodes⟩, working := ⟨[], 0⟩ }

def isRegular (host : Host) (path : Path) : Bool :=
  match host.files.find host.working path with
  | .ok (_, .file _ _) | .ok (_, .tool _) => true
  | _ => false

def canonical? (host : Host) (path : Path) : Option Path :=
  if !Path.isAbsolute path && host.working.lost ≠ 0 then none
  else
    match host.files.seek host.working path with
    | .ok (place, some _) => some (FileSystem.pathOf place.location)
    | _ => none

def enter? (host : Host) (path : Path) : Option Host :=
  match host.files.find host.working path with
  | .ok (place, .directory) => some { host with working := place }
  | _ => none

def workingDirectory? (host : Host) : Option Path :=
  if host.working.lost = 0 then some (FileSystem.pathOf host.working.location) else none

/-- Opens what a path leads to for reading. A file that is removed keeps the content that it
had. -/
def openFile (host : Host) (path : Path) : Except Fault (OpenFile Host) :=
  match host.files.find host.working path with
  | .error fault => .error fault
  | .ok (_, .directory) => .ok fun _ => .error .isDirectory
  | .ok (place, .file content _) =>
    .ok fun later =>
      match later.files.node? place.location with
      | some (.file content _) => .ok content
      | _ => .ok content
  | .ok _ => .ok fun _ => .ok []

def put (host : Host) (location : Location) (node : Node) : Host :=
  { host with files := host.files.insert location node }

def update (host : Host) (path : Path) (change : Update) : Host × Except FileFault Unit :=
  match host.files.findForWriting host.working path with
  | .error fault => (host, .error (.opening fault))
  | .ok (place, none) => (host.put place.location (.file change.bytes false), .ok ())
  | .ok (place, some (.file content executable)) =>
    let content := if change.replaces then change.bytes else content ++ change.bytes
    (host.put place.location (.file content executable), .ok ())
  | .ok (_, some .directory) => (host, .error (.opening .isDirectory))
  | .ok (_, some .full) =>
    (host, if change.bytes.isEmpty then .ok () else .error (.transfer .noSpace))
  | .ok _ => (host, .ok ())

def launch (processId : Nat) (host : Host) (launch : Launch) : Except Fault (ChildRun Host) :=
  match host.files.find host.working launch.directory with
  | .error fault => .error fault
  | .ok (place, .directory) =>
    match prepared host.files place launch with
    | .error fault => .error fault
    | .ok command =>
      let process : Process :=
        { files := host.files, place, processId, name := command.name
          bindings := launch.bindings }
      let (ending, printed) := process.run command.arguments command.tool
      .ok { ending, printed, world := host }
  | .ok _ => .error .notDirectory

/-- The content of a file, read at once. -/
def contentOf? (host : Host) (path : Path) : Option Bytes :=
  match host.openFile path with
  | .ok file => (file host).toOption
  | .error _ => none

/-- Children get a process of their own; its number shows in their output alone. -/
def platform (processId : Nat) : Platform Host where
  isRegular := isRegular
  canonical? := canonical?
  enter? := enter?
  workingDirectory? := workingDirectory?
  openFile := openFile
  update := update
  launch := launch processId

/-- Makes a directory and those above it, as far as they are missing. -/
def makeDirectories (host : Host) (path : Path) : Host :=
  let names := FileSystem.steps path
  (List.range names.length).foldl (fun host index =>
    match host.files.seekSteps false host.working path (names.take (index + 1)) with
    | .ok (place, none) => host.put place.location .directory
    | _ => host) host

/-- A bare host whose process works in a directory that is made for it. -/
def startedIn (path : Path) : Host :=
  let host := bare.makeDirectories path
  (host.enter? path).getD host

def parentOf (path : Path) : Path :=
  (path.reverse.dropWhile (· != '/')).reverse

/-- Replaces the content of a file, which is made when it is missing. -/
def writeFile (host : Host) (path : Path) (content : Bytes) : Host :=
  match host.files.findForWriting host.working path with
  | .ok (place, none) => host.put place.location (.file content false)
  | .ok (place, some (.file _ executable)) => host.put place.location (.file content executable)
  | _ => host

/-- Places a file below directories that are made for it. -/
def placeFile (host : Host) (path : Path) (content : Bytes) (executable : Bool) : Host :=
  let host := host.makeDirectories (parentOf path)
  match host.files.findForWriting host.working path with
  | .ok (place, _) => host.put place.location (.file content executable)
  | _ => host

/-- The location that a path names, without a step through a link at its end. -/
def locate? (host : Host) (path : Path) : Option Location :=
  let names := (FileSystem.steps path).filter (!FileSystem.staysAt ·)
  match names.getLast?, host.files.seekSteps false host.working path (names.dropLast ++ [[]]) with
  | some name, .ok (⟨location, 0⟩, some .directory) => some (location ++ [name])
  | _, _ => none

def placeLink (host : Host) (path target : Path) : Host :=
  match host.locate? path with
  | some location => host.put location (.link target)
  | none => host

/-- A place when a location is removed: the way up from it leads to what lay above. -/
def Place.without (place : Place) (removed : Location) : Place :=
  if removed.isPrefixOf place.location then
    { location := removed.dropLast
      lost := place.lost + (place.location.length - removed.dropLast.length) }
  else place

/-- Removes a file, or a directory and all that lies below it. -/
def remove (host : Host) (path : Path) : Host :=
  match host.locate? path with
  | some location =>
    { files := host.files.removeTree location
      working := host.working.without location }
  | none => host

end Host

end CommandShell
