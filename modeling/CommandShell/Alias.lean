import CommandShell.Bindings
import CommandShell.Chain

/-!
Aliases: a table of names and their values, the form in which an alias is shown, and the expansion
of the first word of a segment.
-/

namespace CommandShell.Alias

def display (name value : Text) : Text :=
  name ++ "='" ++ value ++ "'"

/-- All aliases in the order of their first definition. -/
def displayAll (aliases : Bindings) : List Text :=
  aliases.toList.map fun (name, value) => display name value

/-- The text of a segment from its first word on, cut behind that word. -/
def firstWord (text : Text) : Text × Text :=
  (text.dropWhile Text.isBlank).span (!Text.isBlank ·)

/-- What a segment becomes when its first word is an alias: the value takes the place of the word
and the whole is split again. The first piece stands behind the operator of the segment. -/
def expand? (aliases : Bindings) (segment : Segment) : Option (List Segment) :=
  let (first, rest) := firstWord segment.text
  (aliases.get? first).map fun value =>
    let (text, others) := Chain.cut (value ++ rest)
    { text, operator := segment.operator, expanded := true } ::
      others.map fun (operator, text) => { text, operator, expanded := true }

end CommandShell.Alias
