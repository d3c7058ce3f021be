import CommandShell.Alias
import CommandShell.Line
import CommandShell.Line.Cursor
import CommandShell.Session.Dispatch

/-!
A shell runs input lines on a session. The segments of a line wait in a queue; an alias puts the
pieces of its value in front of those that wait. Pieces are never expanded again, so the queue
runs empty: each step takes either a segment that was typed, or a piece and nothing more.
-/

namespace CommandShell

structure Shell (World : Type) where
  session : Session World
  pending : List Segment := []

namespace Shell

variable {World : Type} (platform : Platform World)

/-- The segment to run in the place of the next one, and the pieces to queue behind it. -/
def resolve (aliases : Bindings) (segment : Segment) : Segment × List Segment :=
  if segment.expanded then
    (segment, [])
  else
    match Alias.expand? aliases segment with
    | some (first :: others) => (first, others)
    | _ => (segment, [])

/-- How many segments may still be expanded. -/
def expandable (pending : List Segment) : Nat :=
  pending.countP (!·.expanded)

theorem expanded_of_mem_expand? {aliases : Bindings} {segment : Segment}
    {pieces : List Segment} (found : Alias.expand? aliases segment = some pieces) :
    ∀ piece ∈ pieces, piece.expanded = true := by
  unfold Alias.expand? at found
  obtain ⟨value, -, rfl⟩ := Option.map_eq_some_iff.mp found
  intro piece member
  rcases List.mem_cons.mp member with rfl | member
  · rfl
  · obtain ⟨part, -, rfl⟩ := List.mem_map.mp member
    rfl

theorem expandable_eq_zero {pieces : List Segment}
    (expanded : ∀ piece ∈ pieces, piece.expanded = true) : expandable pieces = 0 := by
  simpa [expandable, List.countP_eq_zero] using expanded

theorem expandable_append (front back : List Segment) :
    expandable (front ++ back) = expandable front + expandable back :=
  List.countP_append

/-- What a segment is resolved to: either nothing more is queued, or the segment was one that
could be expanded and all that is queued cannot. -/
theorem resolve_queued (aliases : Bindings) (segment : Segment) :
    (resolve aliases segment).2 = [] ∨
      segment.expanded = false ∧ expandable (resolve aliases segment).2 = 0 := by
  unfold resolve
  split
  · exact .inl rfl
  · next typed =>
    split
    · next first others found =>
      refine .inr ⟨by simpa using typed, expandable_eq_zero fun piece member => ?_⟩
      exact expanded_of_mem_expand? found piece (List.mem_cons_of_mem _ member)
    · exact .inl rfl

/-- Runs a segment; what it was resolved to waits in front of the rest. -/
def advance (session : Session World) (segment : Segment) (rest : List Segment) : Shell World :=
  let (first, others) := resolve session.aliases segment
  { session := session.runSegment platform first, pending := others ++ rest }

/-- The queue is measured by the segments that may still be expanded, then by its length. -/
def measure (pending : List Segment) : Nat × Nat :=
  (expandable pending, pending.length)

theorem measure_lt_cons (segment : Segment) (rest : List Segment) :
    Prod.Lex (· < ·) (· < ·) (measure rest) (measure (segment :: rest)) := by
  by_cases typed : segment.expanded = false
  · exact Prod.Lex.left _ _ (by simp [expandable, typed])
  · have same : expandable (segment :: rest) = expandable rest := by
      simp [expandable, typed]
    simp only [measure, same]
    exact Prod.Lex.right _ (Nat.lt_succ_self _)

theorem measure_advance_lt (session : Session World) (segment : Segment)
    (rest : List Segment) :
    Prod.Lex (· < ·) (· < ·) (measure (advance platform session segment rest).pending)
      (measure (segment :: rest)) := by
  rcases resolve_queued session.aliases segment with queued | ⟨typed, queued⟩
  · simpa [advance, queued] using measure_lt_cons segment rest
  · refine Prod.Lex.left _ _ ?_
    change expandable ((resolve session.aliases segment).2 ++ rest) < expandable (segment :: rest)
    rw [expandable_append, queued]
    simp [expandable, typed]

/-- Runs the queue. A session that is to be left drops what still waits. -/
def drain (session : Session World) (pending : List Segment) : Shell World × Option Status :=
  match pending with
  | [] => ({ session }, none)
  | segment :: rest =>
    if segment.operator.permits session.status then
      let next := advance platform session segment rest
      match next.session.leaving with
      | some code => ({ session := next.session }, some code)
      | none => drain next.session next.pending
    else
      drain session rest
termination_by measure pending
decreasing_by
  · exact measure_advance_lt platform session segment rest
  · exact measure_lt_cons segment rest

/-- Keeps an accepted text in the history; a failure is noted and changes nothing else. -/
def remember (session : Session World) (text : Text) : Session World :=
  match session.history.push platform session.world text with
  | (world, history, .ok ()) => { session with world, history }
  | (world, history, .error fault) =>
    { session with world, history }.emit (.noted (.historyFailed fault))

/-- Runs the accepted part of a line, and first records it if asked to. The answer is the status
with which the session is left, when it is. -/
def executeLine (shell : Shell World) (line : Text) (recorded : Bool) :
    Shell World × Option Status :=
  match Line.accepted? line with
  | none => (shell, none)
  | some text =>
    drain platform (if recorded then remember platform shell.session text else shell.session)
      (Chain.split text)

def countLine (shell : Shell World) : Shell World :=
  { shell with session := { shell.session with line := shell.session.line + 1 } }

def runLine (shell : Shell World) (line : Text) : Shell World × Option Status :=
  shell.countLine.executeLine platform line true

/-- Runs lines until the session is left. -/
def runLines (shell : Shell World) : List Text → Shell World × Option Status
  | [] => (shell, none)
  | line :: rest =>
    match shell.runLine platform line with
    | (shell, some code) => (shell, some code)
    | (shell, none) => shell.runLines rest

/-- The status of a finished run: that with which the session was left, or the last one. -/
def statusOf : Shell World × Option Status → Shell World × Status
  | (shell, some code) => (shell, code)
  | (shell, none) => (shell, shell.session.status)

/-- Runs a single line. -/
def runCommand (shell : Shell World) (line : Text) : Shell World × Status :=
  statusOf (shell.runLine platform line)

def runReader (shell : Shell World) (content : Bytes) : Shell World × Status :=
  statusOf (shell.runLines platform ((Line.ofBytes content).map Utf8.decodeLossy))

def note (shell : Shell World) (notice : Notice) : Shell World :=
  { shell with session := shell.session.emit (.noted notice) }

/-- The report on a script that cannot be opened stands before its first line. -/
def cannotOpenReport (program : Text) (path : Path) : Text :=
  program ++ ": 0: Can't open " ++ path

/-- Runs the lines of an opened file, which is read as far as each line needs. Lines that the run
itself adds to the file are run as well; the limit keeps that from going on for ever. -/
def runFile (file : OpenFile World) (limit : Nat) (shell : Shell World) (cursor : Line.Cursor) :
    Shell World × Option Status :=
  match _ : cursor.next? limit (file shell.session.world) with
  | .error fault => (shell.note (.cannotReadInput fault), none)
  | .ok none => (shell, none)
  | .ok (some (line, rest)) =>
    match shell.runLine platform (Utf8.decodeLossy line) with
    | (shell, some code) => (shell, some code)
    | (shell, none) => runFile file limit shell rest
termination_by cursor.remaining limit
decreasing_by exact Line.Cursor.remaining_lt_of_next? (by assumption)

/-- How far a file may grow while it is run: no file reaches farther. -/
def maxGrowth : Nat := 0x7FFFFFFFFFFFFFFF

def runScript (shell : Shell World) (path : Path) : Shell World × Status :=
  match platform.openFile shell.session.world path with
  | .ok file =>
    let size := ((file shell.session.world).toOption.getD []).length
    statusOf (shell.runFile platform file (size + maxGrowth) .start)
  | .error fault =>
    let report := cannotOpenReport shell.session.program path
    ({ shell with session := shell.session.emit (.reported report) },
      if fault = .denied then 126 else 127)

def sourceLines (shell : Shell World) : List Text → Shell World × Option Status
  | [] => (shell, none)
  | line :: rest =>
    match shell.countLine.executeLine platform line false with
    | (shell, some code) => (shell, some code)
    | (shell, none) => shell.sourceLines rest

def setLine (shell : Shell World) (line : Nat) : Shell World :=
  { shell with session := { shell.session with line } }

/-- Runs a text under a line count of its own and records nothing. -/
def sourceText (shell : Shell World) (content : Text) : Shell World × Option Status :=
  let (after, outcome) := (shell.setLine 0).sourceLines platform (Line.ofText content)
  (after.setLine shell.session.line, outcome)

/-- Runs a startup file, which may be missing. -/
def source (shell : Shell World) (path : Path) : Shell World × Option Status :=
  match platform.read shell.session.world path with
  | .ok content =>
    match Utf8.decode? content with
    | some text => shell.sourceText platform text
    | none => (shell.note (.cannotReadStartup path .notUtf8), none)
  | .error fault =>
    if fault = .opening .missing then (shell, none)
    else (shell.note (.cannotReadStartup path fault.cause), none)

/-- At the end of input the cursor is left on a line of its own. -/
def endInput (shell : Shell World) : Shell World :=
  { shell with session := (shell.session.print "\n").1 }

/-- The prompt appears on terminals only. -/
def ask (shell : Shell World) (prompt : Option Text) : Shell World :=
  match prompt with
  | none => shell
  | some prompt => { shell with session := shell.session.emit (.prompted prompt) }

/-- Runs lines as an editor takes them; one that is not UTF-8 ends the input with a notice. -/
def runTyped (shell : Shell World) (prompt : Option Text) :
    List Bytes → Shell World × Option Status
  | [] => ((shell.ask prompt).endInput, none)
  | line :: rest =>
    match Utf8.decode? line with
    | none => ((shell.ask prompt).note (.cannotReadInput .notUtf8), none)
    | some text =>
      match (shell.ask prompt).runLine platform (Line.erased text) with
      | (shell, some code) => (shell, some code)
      | (shell, none) => shell.runTyped prompt rest

def interact (shell : Shell World) (prompt : Option Text) (content : Bytes) :
    Shell World × Status :=
  statusOf (shell.runTyped platform prompt (Line.typed content))

/-- Brings the history to its file. -/
def finish (shell : Shell World) : Shell World :=
  let session := shell.session
  match session.history.finish platform session.world with
  | (world, history, .ok ()) => { shell with session := { session with world, history } }
  | (world, history, .error fault) =>
    { shell with
      session := { session with world, history }.emit (.noted (.historyFailed fault)) }

end Shell

end CommandShell
