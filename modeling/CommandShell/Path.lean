import CommandShell.Text

/-!
Paths as texts: joining two, and the last name of one.
-/

namespace CommandShell

abbrev Path := Text

namespace Path

def isAbsolute (path : Path) : Bool :=
  path.head? == some '/'

/-- An absolute right side replaces the left side; else one slash stands between the two, unless
the left side is empty or ends in one. -/
def join (left right : Path) : Path :=
  if isAbsolute right then right
  else if left.isEmpty || left.getLast? == some '/' then left ++ right
  else left ++ '/' :: right

/-- The names in a path; empty ones and single dots name nothing. -/
def components (path : Path) : List Text :=
  (Text.pieces (· == '/') path).filter fun name => !name.isEmpty && name != "."

/-- The last name of a path, or the whole of it when it ends in none. -/
def lastName (path : Path) : Text :=
  match (components path).getLast? with
  | some name => if name = ['.', '.'] then path else name
  | none => path

end Path

end CommandShell
