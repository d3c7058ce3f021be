import CommandShell.Text

/-!
What can go wrong with files and processes, and the words for it.
-/

namespace CommandShell

inductive Fault
  | missing
  | argumentsTooLong
  | badFormat
  | denied
  | notDirectory
  | isDirectory
  | noSpace
  | nameTooLong
  | tooManyLinks
  | pathHoldsNul
  | dataHoldsNul
  | notUtf8
  deriving DecidableEq, Repr

def Fault.message : Fault → Text
  | .missing => "No such file or directory (os error 2)"
  | .argumentsTooLong => "Argument list too long (os error 7)"
  | .badFormat => "Exec format error (os error 8)"
  | .denied => "Permission denied (os error 13)"
  | .notDirectory => "Not a directory (os error 20)"
  | .isDirectory => "Is a directory (os error 21)"
  | .noSpace => "No space left on device (os error 28)"
  | .nameTooLong => "File name too long (os error 36)"
  | .tooManyLinks => "Too many levels of symbolic links (os error 40)"
  | .pathHoldsNul => "file name contained an unexpected NUL byte"
  | .dataHoldsNul => "nul byte found in provided data"
  | .notUtf8 => "stream did not contain valid UTF-8"

/-- Files fail when they are opened, or later while they are read or written. -/
inductive FileFault
  | opening (fault : Fault)
  | transfer (fault : Fault)
  deriving DecidableEq, Repr

def FileFault.cause : FileFault → Fault
  | .opening fault => fault
  | .transfer fault => fault

end CommandShell
