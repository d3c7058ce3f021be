import CommandShell.Host
import CommandShell.Invocation

/-!
The command line. The program runs on a host of its own: the files that its call names are brought
in beforehand, and brought out again where they changed.
-/

namespace CommandShell.Main

def programName : String := "hsh"

/-- The variables that are taken over from the caller. -/
def inheritedNames : List String :=
  ["HISTFILE", "HISTSIZE", "HOME", "HSH_RC", "OLDPWD", "PATH", "PWD"]

def encode (text : String) : Bytes :=
  Utf8.encode text.toList

def inherited : IO (List Bytes) :=
  inheritedNames.filterMapM fun name => do
    return (← IO.getEnv name).map fun value => encode (name ++ "=" ++ value)

partial def readAll (stream : IO.FS.Stream) (read : ByteArray) : IO ByteArray := do
  let block ← stream.read 65536
  if block.isEmpty then return read else readAll stream (read ++ block)

def readFile? (path : Path) : IO (Option Bytes) := do
  try
    return some (← IO.FS.readBinFile (String.ofList path)).toList
  catch _ =>
    return none

def bringIn (host : Host) (path : Path) : IO Host := do
  match ← readFile? path with
  | some content => return host.placeFile path content false
  | none => return host.makeDirectories (Host.parentOf path)

def bringOut (before after : Host) (path : Path) : IO Unit := do
  match after.contentOf? path with
  | none => return
  | some content =>
    if before.contentOf? path ≠ some content then
      IO.FS.writeBinFile (String.ofList path) ⟨content.toArray⟩

def processId : IO Nat := do
  try
    return ((← IO.FS.readFile "/proc/self/stat").takeWhile Char.isDigit).toNat?.getD 0
  catch _ =>
    return 0

def run (arguments : List String) : IO UInt32 := do
  let input ← IO.getStdin
  let terminal ← input.isTty
  let invocation : Invocation :=
    { program := programName
      arguments := arguments.map String.toList
      entries := ← inherited
      processId := ← processId
      terminal
      input := (← readAll input ByteArray.empty).toList }
  let working := (← IO.currentDir).toString.toList
  let paths := invocation.filesNamed
  let before ← paths.foldlM bringIn (Host.startedIn working)
  let result := invocation.run (Host.platform (invocation.processId + 1)) before
  let after := (result.world.enter? working).getD result.world
  paths.forM (bringOut before after)
  (← IO.getStdout).write ⟨result.output.toArray⟩
  (← IO.getStderr).write ⟨result.errors.toArray⟩
  return UInt32.ofNat result.status.toNat

end CommandShell.Main

def main (arguments : List String) : IO UInt32 :=
  CommandShell.Main.run arguments
