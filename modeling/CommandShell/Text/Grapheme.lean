import CommandShell.Text.Grapheme.Class

/-!
Extended grapheme clusters: the units that a reader takes for one character. A text is cut between
two characters unless a rule joins them.
-/

namespace CommandShell.Text.Grapheme

namespace Class

/-- Nothing joins a control but a line feed behind a carriage return. -/
def isControl : Class → Bool
  | .carriageReturn | .lineFeed | .control => true
  | _ => false

def isMark : Class → Bool
  | .extend | .linker | .nonJoiner | .joiner => true
  | _ => false

/-- Whether a letter or syllable goes on with the next one in the same Hangul syllable. -/
def continuesSyllable : Class → Class → Bool
  | .initialJamo, .initialJamo | .initialJamo, .vowelJamo | .initialJamo, .openSyllable
  | .initialJamo, .closedSyllable => true
  | .openSyllable, .vowelJamo | .openSyllable, .finalJamo => true
  | .vowelJamo, .vowelJamo | .vowelJamo, .finalJamo => true
  | .closedSyllable, .finalJamo | .finalJamo, .finalJamo => true
  | _, _ => false

end Class

/-- How far the end of a text has come in a conjunct. -/
inductive Conjunct
  | absent
  | consonant
  /-- A consonant with a linker behind it: the next consonant belongs to it. -/
  | linked
  deriving DecidableEq, Repr

/-- What the next character has to know of the text before it. -/
structure Context where
  last : Class
  /-- Whether the regional indicators at the end are odd in number. -/
  oddRegional : Bool
  /-- Whether the end is a pictograph with any marks behind it, the last of which may be a
  joiner. -/
  pictograph : Bool
  conjunct : Conjunct
  deriving DecidableEq, Repr

namespace Context

/-- The start of a text joins nothing. -/
def start : Context :=
  { last := .control, oddRegional := false, pictograph := false, conjunct := .absent }

def next (context : Context) (current : Class) : Context :=
  { last := current
    oddRegional := current = .regional && !context.oddRegional
    pictograph :=
      current = .pictograph ||
        current.isMark && context.pictograph && context.last ≠ .joiner
    conjunct :=
      match current with
      | .consonant => .consonant
      | .extend | .joiner => context.conjunct
      | .linker => if context.conjunct = .absent then .absent else .linked
      | _ => .absent }

def joins (context : Context) (current : Class) : Bool :=
  if context.last.isControl || current.isControl then
    context.last = .carriageReturn && current = .lineFeed
  else
    current.isMark || current = .spacingMark || context.last = .prepended ||
      context.last.continuesSyllable current ||
      (current = .consonant && context.conjunct = .linked) ||
      (current = .pictograph && context.last = .joiner && context.pictograph) ||
      (current = .regional && context.oddRegional)

end Context

/-- What still belongs to the cluster that stands before a text, and the clusters behind it. -/
def splitFrom (context : Context) : Text → Text × List Text
  | [] => ([], [])
  | character :: rest =>
    let current := classOf character
    let (own, others) := splitFrom (context.next current) rest
    if context.joins current then (character :: own, others) else ([], (character :: own) :: others)

def clusters (text : Text) : List Text :=
  (splitFrom .start text).2

end CommandShell.Text.Grapheme
