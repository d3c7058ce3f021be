import CommandShell.Text

/-!
A line as a chain of segments, each behind the operator that decides whether it runs. There is no
quoting: every `;`, `&&` and `||` cuts, taken from the left, and a lone `&` or `|` is text.
Segments without words are kept.
-/

namespace CommandShell

/-- Zero is success, anything else a failure. -/
abbrev Status := Int

inductive Operator
  | start
  | seq
  | and
  | or
  deriving DecidableEq, Repr

namespace Operator

def permits (operator : Operator) (status : Status) : Bool :=
  match operator with
  | .start | .seq => true
  | .and => status == 0
  | .or => status != 0

def spelling : Operator → Text
  | .start => ""
  | .seq => ";"
  | .and => "&&"
  | .or => "||"

end Operator

structure Segment where
  text : Text
  operator : Operator
  /-- Set on what an alias was expanded to; such a segment is not expanded again. -/
  expanded : Bool := false
  deriving DecidableEq, Repr

def Segment.isBlank (segment : Segment) : Bool :=
  segment.text.all Text.isBlank

namespace Chain

/-- The text in front of the first operator, and each operator with the text behind it. -/
def cut : Text → Text × List (Operator × Text)
  | [] => ([], [])
  | ';' :: rest => ([], (.seq, (cut rest).1) :: (cut rest).2)
  | '&' :: '&' :: rest => ([], (.and, (cut rest).1) :: (cut rest).2)
  | '|' :: '|' :: rest => ([], (.or, (cut rest).1) :: (cut rest).2)
  | character :: rest => (character :: (cut rest).1, (cut rest).2)

def split (line : Text) : List Segment :=
  { text := (cut line).1, operator := .start } ::
    (cut line).2.map fun (operator, text) => { text, operator }

def render (segments : List Segment) : Text :=
  segments.flatMap fun segment => segment.operator.spelling ++ segment.text

end Chain

end CommandShell
