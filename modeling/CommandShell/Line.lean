import CommandShell.Text.Grapheme
import CommandShell.Text.Space
import CommandShell.Text.Utf8

/-!
Input lines: how content is cut into physical lines, and which part of a line is run and recorded.
-/

namespace CommandShell.Line

/-- Cuts a text at the first `#` that stands behind a blank; `afterBlank` tells whether the text
itself does. -/
def stripCommentFrom (afterBlank : Bool) : Text → Text
  | [] => []
  | character :: rest =>
    if character == '#' && afterBlank then
      []
    else
      character :: stripCommentFrom (Text.isBlank character) rest

def stripComment (line : Text) : Text :=
  stripCommentFrom true line

/-- The part of a line that is run and recorded; blank lines and lone comments have none. -/
def accepted? (line : Text) : Option Text :=
  let text := Text.trimEnd Text.isSpace (stripComment (Text.trimEnd Text.isLineEnd line))
  if text.isEmpty then none else some text

/-- The lines that line feeds end, each without its line feed and without one carriage return in
front of that; what follows the last line feed is a line when it is not empty. -/
def ended {Item : Type} [DecidableEq Item] (feed carriageReturn : Item) (content : List Item) :
    List (List Item) :=
  let found := Text.pieces (· == feed) content
  found.dropLast.map (fun line =>
      if line.getLast? = some carriageReturn then line.dropLast else line) ++
    found.getLast?.toList.filter (!·.isEmpty)

def ofText (content : Text) : List Text :=
  ended '\n' '\r' content

/-- The lines of a byte stream as an editor takes them, not yet decoded. -/
def typed (content : Bytes) : List Bytes :=
  ended 10 13 content

/-- The lines of a byte stream without their line feeds. -/
def ofBytes (content : Bytes) : List Bytes :=
  let found := Text.pieces (· == 10) content
  found.dropLast ++ found.getLast?.toList.filter (!·.isEmpty)

def backspace : Char := '\x08'

/-- What an editor holds of a line. -/
structure Edited where
  /-- The characters, the last one first. -/
  kept : Text
  /-- How many bytes each cluster has, the last one first. One byte holds a size, so that of a
  cluster that is longer the remainder counts. -/
  sizes : List Nat

/-- Takes bytes off the end of a text whose last character comes first. -/
def dropBytes : Nat → Text → Text
  | _, [] => []
  | count, character :: rest =>
    if character.utf8Size ≤ count then dropBytes (count - character.utf8Size) rest
    else character :: rest

/-- A backspace takes away the cluster that is left of it, if there is one. -/
def Edited.put (edited : Edited) (cluster : Text) : Edited :=
  if cluster = [backspace] then
    match edited.sizes with
    | [] => edited
    | size :: sizes => { kept := dropBytes size edited.kept, sizes }
  else
    { kept := cluster.reverse ++ edited.kept
      sizes := (Utf8.encode cluster).length % 256 :: edited.sizes }

def erased (line : Text) : Text :=
  if line.contains backspace then
    ((Text.Grapheme.clusters line).foldl Edited.put ⟨[], []⟩).kept.reverse
  else line

end CommandShell.Line
