import CommandShell.Path

/-!
The file that a command name stands for. A name with a slash is a path by itself; any other is
looked for in the entries of the search path, and last in the current directory.
-/

namespace CommandShell.Lookup

def entries (searchPath : Text) : List Path :=
  Text.pieces (· == ':') searchPath

/-- Where an entry would hold a command; the empty entry is the current directory. -/
def candidate (directory : Path) (name : Text) (entry : Path) : Path :=
  Path.join (Path.join directory (if entry.isEmpty then directory else entry)) name

def candidates (directory : Path) (name : Text) (searchPath : Option Text) : List Path :=
  (searchPath.toList.flatMap entries).map (candidate directory name) ++ [Path.join directory name]

def find? (isRegular : Path → Bool) (directory : Path) (name : Text) (searchPath : Option Text) :
    Option Path :=
  if name.isEmpty then
    none
  else if name.contains '/' then
    [Path.join directory name].find? isRegular
  else
    (candidates directory name searchPath).find? isRegular

end CommandShell.Lookup
