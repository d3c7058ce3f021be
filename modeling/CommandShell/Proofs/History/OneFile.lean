import CommandShell.Proofs.History.Course
import CommandShell.Proofs.History.Sessions

/-!
# One file for a whole session

The path of the history is walked anew for every write, from wherever the process works by then. An
absolute path leads to the same file all the time; any other one does as long as each line leaves
the process where it was. Then all writes of a session go to the file that it read, and a later
session finds its lines there.
-/

namespace CommandShell

variable {World : Type}

def Session.course (session : Session World) : Course World :=
  { world := session.world, history := session.history }

namespace Shell

/-- The shell of a session on a history file that it writes line by line or at its end, before the
first line. -/
def bound (platform : Platform World) (path : Path) (limit : Nat) (sync : History.Sync)
    (start : Session World) : Shell World :=
  { session :=
      { start with history := (Course.start platform path limit sync start.world).history } }

end Shell

namespace History

open Host

variable {platform : Platform World} {path : Path} {limit : Nat} {sync : Sync}
  {holds : World → Option Bytes → Prop} {texts lines : List Text} {content? : Option Bytes}

theorem course_push_eq (hstores : platform.Stores path holds) {session : Session World}
    (hholds : holds session.world content?) (hpath : session.history.path? = some path)
    (text : Text) :
    session.course.push platform text = (Shell.remember platform session text).course := by
  obtain ⟨after, next, -, hpush, -, -⟩ := push_of_stores hstores hholds hpath text
  have hpush' : session.course.history.push platform session.course.world text =
      (after, next, .ok ()) := hpush
  rw [Course.push, Shell.remember, hpush, hpush']
  rfl

theorem Sound.remember (hlimit : 1 ≤ limit) (hstores : platform.Stores path holds)
    {session : Session World}
    (hsound : Sound holds path limit sync texts content? session.course) {text : Text}
    (htext : Recordable text) :
    ∃ content?', Sound holds path limit sync (texts ++ [text]) content?'
      (Shell.remember platform session text).course := by
  rw [← course_push_eq hstores hsound.holds hsound.keeps.path_eq]
  exact hsound.push hlimit hstores.mayStore htext

theorem course_finish (platform : Platform World) (shell : Shell World) :
    (shell.finish platform).session.world = (shell.session.course.finish platform).world ∧
      (shell.finish platform).session.history =
        (shell.session.course.finish platform).history := by
  rcases hfinish : shell.session.history.finish platform shell.session.world with
    ⟨after, next, _ | _⟩ <;>
  simp only [Shell.finish, Course.finish, Session.course, Session.emit, hfinish, and_self]

theorem world_finish (platform : Platform World) (shell : Shell World) :
    (shell.finish platform).session.world = (shell.session.course.finish platform).world :=
  (course_finish platform shell).1

theorem history_finish (platform : Platform World) (shell : Shell World) :
    (shell.finish platform).session.history = (shell.session.course.finish platform).history :=
  (course_finish platform shell).2

section Moves

variable {launch : Host → Launch → Except CommandShell.Fault (ChildRun Host)}
  {before : Host} {location : Location} {shell : Shell Host}

theorem Sound.runLine (hlimit : 1 ≤ limit)
    (hchildren : ∀ host request child, launch host request = .ok child → child.world = host)
    (hsound : Sound (Confined before path location) path limit sync texts content?
      shell.session.course) {line : Text} (hfeed : '\n' ∉ line)
    (hstays : Path.isAbsolute path = true ∨
      (shell.runLine (platformWith launch) line).1.session.world.working = before.working) :
    ∃ content?', Sound (Confined before path location) path limit sync
      (texts ++ (Line.accepted? line).toList) content?'
      (shell.runLine (platformWith launch) line).1.session.course := by
  unfold Shell.runLine Shell.executeLine at hstays ⊢
  cases haccepted : Line.accepted? line with
  | none => exact ⟨content?, by rwa [Option.toList_none, List.append_nil]⟩
  | some text =>
      have hcounted : Sound (Confined before path location) path limit sync texts content?
          shell.countLine.session.course := hsound
      obtain ⟨content?', hnext⟩ := hcounted.remember hlimit (stores_confined launch before _ _)
        (recordable_of_accepted? hfeed haccepted)
      -- The push meets the process where the line found it; the commands behind it write no file.
      let remembered := Shell.remember (platformWith launch) shell.countLine.session text
      have hframe := Shell.frame_drain (spares_files hchildren remembered.world.files) remembered
        (Chain.split text)
      rw [haccepted] at hstays
      exact ⟨content?', hnext.resume (hnext.holds.of_files (hframe.world rfl) hstays)
        hframe.history rfl⟩

theorem Sound.runLines (hlimit : 1 ≤ limit)
    (hchildren : ∀ host request child, launch host request = .ok child → child.world = host)
    (hsound : Sound (Confined before path location) path limit sync texts content?
      shell.session.course) (hfeeds : ∀ line ∈ lines, '\n' ∉ line)
    (hstays : Path.isAbsolute path = true ∨ ∀ front, front <+: lines →
      (shell.runLines (platformWith launch) front).1.session.world.working = before.working) :
    ∃ content?', Sound (Confined before path location) path limit sync
      (texts ++ shell.taken (platformWith launch) lines) content?'
      (shell.runLines (platformWith launch) lines).1.session.course := by
  induction lines generalizing shell texts content? with
  | nil => exact ⟨content?, by simpa [Shell.taken, Shell.executed, Shell.runLines] using hsound⟩
  | cons line rest ih =>
      obtain ⟨hfeed, hrest⟩ := List.forall_mem_cons.mp hfeeds
      have hline := hstays.imp id fun hfronts =>
        Shell.fst_runLines_singleton (platformWith launch) shell line ▸
          hfronts [line] (List.prefix_append [line] rest)
      obtain ⟨content?', hnext⟩ := hsound.runLine hlimit hchildren hfeed hline
      rcases hrun : shell.runLine (platformWith launch) line with ⟨after, _ | code⟩
      · have hstay := hstays.imp id fun hfronts front hfront => by
          have hwhole := hfronts (line :: front) ((List.prefix_cons_inj line).mpr hfront)
          rw [Shell.runLines, hrun] at hwhole
          exact hwhole
        rw [hrun] at hnext
        obtain ⟨content?'', hlast⟩ := ih hnext hrest hstay
        refine ⟨content?'', ?_⟩
        rw [Shell.taken_cons_of_stays _ hrun, ← List.append_assoc, Shell.runLines, hrun]
        exact hlast
      · rw [hrun] at hnext
        rw [Shell.taken_cons_of_leaves _ hrun, Shell.runLines, hrun]
        exact ⟨content?', hnext⟩

end Moves

end History

end CommandShell
