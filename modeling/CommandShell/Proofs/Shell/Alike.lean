import CommandShell.Proofs.Session.Alike

/-!
# Runs that differ in their history

A line is recorded before its first command, and that may fail. In which history it is recorded, in
none at all, and with what success, no command of the run can tell: runs in sessions that are alike
stay alike, command by command.
-/

namespace CommandShell

variable {World : Type} {platform : Platform World} {mask : Mask platform}
  {lists : List Text → Bool}

namespace History

variable {history : History} {world : World}

theorem alike_save (hhidden : history.HiddenBy mask) (hworld : mask.alike world world) :
    mask.alike world (history.save platform world).1 ∧
      (history.save platform world).2.1.HiddenBy mask := by
  unfold save
  split
  · exact ⟨hworld, hhidden⟩
  · next path hpath =>
    have hupdate := mask.update hworld (hhidden path hpath) history.saveUpdate
    split <;> next hdone => rw [hdone] at hupdate; exact ⟨hupdate, hhidden⟩

theorem alike_append (hhidden : history.HiddenBy mask) (hworld : mask.alike world world) :
    mask.alike world (history.append platform world).1 ∧
      (history.append platform world).2.1.HiddenBy mask := by
  unfold append
  split
  · exact alike_save hhidden hworld
  · split
    · next path entry hpath _ =>
      have hupdate := mask.update hworld (hhidden path hpath) ⟨false, [entry.line]⟩
      split <;> next hdone => rw [hdone] at hupdate; exact ⟨hupdate, hhidden⟩
    · exact ⟨hworld, hhidden⟩

theorem alike_push (hhidden : history.HiddenBy mask) (hworld : mask.alike world world)
    (line : Text) :
    mask.alike world (history.push platform world line).1 ∧
      (history.push platform world line).2.1.HiddenBy mask := by
  have hrecord : (history.record line).HiddenBy mask := hhidden
  unfold push
  split
  · exact ⟨hworld, hhidden⟩
  · split
    · exact ⟨hworld, hrecord⟩
    · exact alike_append hrecord hworld

end History

namespace Session

variable {left right : Session World}

theorem Alike.expandedWords (halike : Alike mask lists left right) (text : Text) :
    right.expandedWords text = left.expandedWords text := by
  simp only [Session.expandedWords, references, halike.environment, halike.status,
    halike.processId]

/-- What is asked of the commands of a run: they look for no hidden file, and `lists` tells of
those that list the history. -/
def Admits (mask : Mask platform) (lists : List Text → Bool) (commands : List (Command World)) :
    Prop :=
  ∀ command ∈ commands, mask.Spares command ∧
    (Builtin.find? command.name = some .history → lists command.words = true)

theorem Alike.runSegment (halike : Alike mask lists left right) (segment : Segment)
    (hadmits : Admits mask lists (Command.ofSegment left segment)) :
    Alike mask lists (left.runSegment platform segment) (right.runSegment platform segment) := by
  unfold Command.ofSegment at hadmits
  unfold Session.runSegment
  rw [halike.expandedWords]
  cases hwords : left.expandedWords segment.text with
  | nil => exact halike
  | cons name arguments =>
      simp only [hwords] at hadmits
      obtain ⟨hspares, hlists⟩ := hadmits _ List.mem_cons_self
      have hafter : Alike mask lists (Command.after platform ⟨left, name, arguments⟩)
          (Command.after platform ⟨right, name, arguments⟩) :=
        Command.alike_after halike hspares hlists
      exact hafter

end Session

namespace Shell

open Session

structure AlikeEnds (mask : Mask platform) (lists : List Text → Bool)
    (left right : Shell World × Option Status) : Prop where
  session : Alike mask lists left.1.session right.1.session
  outcome : right.2 = left.2

theorem alike_drain {left right : Session World} (halike : Alike mask lists left right)
    (pending : List Segment) (hadmits : Admits mask lists (queueCommands platform left pending)) :
    AlikeEnds mask lists (drain platform left pending) (drain platform right pending) := by
  induction left, pending using drain_induction platform generalizing right with
  | nil left =>
      rw [drain_nil, drain_nil]
      exact ⟨halike, rfl⟩
  | skip left segment rest hpermits ih =>
      have hpermits' : ¬ segment.operator.permits right.status = true := halike.status ▸ hpermits
      rw [queueCommands_cons_of_not_permits platform hpermits] at hadmits
      rw [drain_cons_of_not_permits platform hpermits, drain_cons_of_not_permits platform hpermits']
      exact ih halike hadmits
  | leave left segment rest code hpermits hleaving =>
      have hpermits' : segment.operator.permits right.status = true := halike.status ▸ hpermits
      rw [queueCommands_cons_of_permits platform hpermits] at hadmits
      have hafter := halike.runSegment (resolve left.aliases segment).1 fun command hmember =>
        hadmits command (List.mem_append_left _ hmember)
      rw [drain_cons_of_permits platform hpermits, drain_cons_of_permits platform hpermits',
        halike.aliases]
      simp only [hafter.leaving, hleaving]
      exact ⟨hafter, rfl⟩
  | stay left segment rest hpermits hleaving ih =>
      have hpermits' : segment.operator.permits right.status = true := halike.status ▸ hpermits
      rw [queueCommands_cons_of_permits platform hpermits] at hadmits
      simp only [hleaving] at hadmits
      have hafter := halike.runSegment (resolve left.aliases segment).1 fun command hmember =>
        hadmits command (List.mem_append_left _ hmember)
      rw [drain_cons_of_permits platform hpermits, drain_cons_of_permits platform hpermits',
        halike.aliases]
      simp only [hafter.leaving, hleaving]
      exact ih hafter fun command hmember => hadmits command (List.mem_append_right _ hmember)

/-- Recording a line is not seen, whether it succeeds or not. -/
theorem alike_remember {session : Session World} (halike : Alike mask lists session session)
    (text : Text) : Alike mask lists session (remember platform session text) := by
  obtain ⟨hworld, hhidden⟩ := History.alike_push halike.hidden.1 halike.world text
  unfold remember
  split
  · next world history hpush =>
    rw [hpush] at hworld hhidden
    exact { halike with world := hworld, hidden := ⟨halike.hidden.1, hhidden⟩ }
  · next world history fault hpush =>
    rw [hpush] at hworld hhidden
    exact { halike with
      world := hworld, hidden := ⟨halike.hidden.1, hhidden⟩
      sight := Output.sight_emit lists _ _
      unfailing := ⟨halike.unfailing.1, halike.unfailing.1.emit _⟩ }

theorem alike_start {left right : Session World} (halike : Alike mask lists left right)
    (text : Text) (leftRecorded rightRecorded : Bool) :
    Alike mask lists (if leftRecorded then remember platform left text else left)
      (if rightRecorded then remember platform right text else right) := by
  have hstart : ∀ {session : Session World} (recorded : Bool), Alike mask lists session session →
      Alike mask lists session (if recorded then remember platform session text else session) := by
    intro session recorded hsession
    cases recorded with
    | false => exact hsession
    | true => exact alike_remember hsession text
  -- Each session is alike to itself before the line was recorded, and so the two are.
  exact ((hstart leftRecorded (halike.trans halike.symm)).symm.trans halike).trans
    (hstart rightRecorded (halike.symm.trans halike))

theorem alike_executeLine {left right : Shell World}
    (halike : Alike mask lists left.session right.session) (line : Text)
    (leftRecorded rightRecorded : Bool)
    (hadmits : Admits mask lists (left.lineCommands platform line leftRecorded)) :
    AlikeEnds mask lists (left.executeLine platform line leftRecorded)
      (right.executeLine platform line rightRecorded) := by
  unfold lineCommands at hadmits
  unfold executeLine
  cases haccepted : Line.accepted? line with
  | none => exact ⟨halike, rfl⟩
  | some text =>
      rw [haccepted] at hadmits
      exact alike_drain (alike_start halike text leftRecorded rightRecorded) _ hadmits

theorem alike_countLine {left right : Shell World}
    (halike : Alike mask lists left.session right.session) :
    Alike mask lists left.countLine.session right.countLine.session :=
  { halike with line := congrArg (· + 1) halike.line }

/-- Runs lines until the session is left, and records them or does not. -/
def runEach (platform : Platform World) (recorded : Bool) (shell : Shell World) :
    List Text → Shell World × Option Status
  | [] => (shell, none)
  | line :: rest =>
    match shell.countLine.executeLine platform line recorded with
    | (shell, some code) => (shell, some code)
    | (shell, none) => runEach platform recorded shell rest

theorem runLines_eq_runEach (shell : Shell World) (lines : List Text) :
    shell.runLines platform lines = shell.runEach platform true lines := by
  induction lines generalizing shell with
  | nil => rfl
  | cons line rest ih =>
      rw [runLines, runEach, runLine]
      rcases shell.countLine.executeLine platform line true with ⟨after, _ | code⟩
      · exact ih after
      · rfl

theorem sourceLines_eq_runEach (shell : Shell World) (lines : List Text) :
    shell.sourceLines platform lines = shell.runEach platform false lines := by
  induction lines generalizing shell with
  | nil => rfl
  | cons line rest ih =>
      rw [sourceLines, runEach]
      rcases shell.countLine.executeLine platform line false with ⟨after, _ | code⟩
      · exact ih after
      · rfl

theorem alike_runLines {left right : Shell World}
    (halike : Alike mask lists left.session right.session) (recorded : Bool) (lines : List Text)
    (hadmits : Admits mask lists (left.commands platform lines)) :
    AlikeEnds mask lists (left.runLines platform lines)
      (right.runEach platform recorded lines) := by
  induction lines generalizing left right with
  | nil => exact ⟨halike, rfl⟩
  | cons line rest ih =>
      rw [commands] at hadmits
      obtain ⟨hsession, houtcome⟩ := alike_executeLine (alike_countLine halike) line true recorded
        fun command hmember => hadmits command (List.mem_append_left _ hmember)
      rw [← runLine] at hsession houtcome
      rw [runLines, runEach]
      generalize right.countLine.executeLine platform line recorded = rightRun
        at hsession houtcome
      obtain ⟨rightAfter, other⟩ := rightRun
      cases hrun : left.runLine platform line with
      | mk leftAfter outcome =>
          rw [hrun] at hsession houtcome hadmits
          obtain rfl : other = outcome := houtcome
          cases other with
          | some code => exact ⟨hsession, rfl⟩
          | none =>
              exact ih hsession fun command hmember =>
                hadmits command (List.mem_append_right _ hmember)

end Shell

end CommandShell
