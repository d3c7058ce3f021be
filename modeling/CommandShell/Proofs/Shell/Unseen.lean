import CommandShell.Proofs.Host.RootFile
import CommandShell.Proofs.Shell.Alike
import CommandShell.Proofs.Shell.Composition
import CommandShell.Proofs.Shell.Recording

/-!
# Histories are not seen by commands

Two runs of the same input, each with a history of its own, dispatch the same commands and end
alike, whatever becomes of the history files on the way: that is told of in notices and in what
`history` lists, and nowhere else.
-/

namespace CommandShell

variable {World : Type} {platform : Platform World}

/-- Whether a command lists the history. -/
def listsHistory (words : List Text) : Bool :=
  words.head?.any fun name => Builtin.find? name = some .history

theorem Session.admits_listsHistory {mask : Mask platform} {commands : List (Command World)}
    (hspares : ∀ command ∈ commands, mask.Spares command) : Admits mask listsHistory commands :=
  fun command hmember => ⟨hspares command hmember, fun hhistory => by
    simp [listsHistory, Command.words, hhistory]⟩

/-- Shells that differ in their histories only, and in the files where these are kept. -/
structure Shell.DifferInHistory (mask : Mask platform) (left right : Shell World) : Prop where
  session : right.session =
    { left.session with history := right.session.history, world := right.session.world }
  world : mask.alike left.session.world right.session.world
  hidden : left.session.history.HiddenBy mask ∧ right.session.history.HiddenBy mask

namespace Shell

open Session

theorem DifferInHistory.alike {mask : Mask platform} {left right : Shell World}
    (hdiffer : DifferInHistory mask left right) (hunfailing : left.session.output.Unfailing)
    (lists : List Text → Bool) : Alike mask lists left.session right.session := by
  have houtput : right.session.output = left.session.output := congrArg (·.output) hdiffer.session
  exact {
    program := congrArg (·.program) hdiffer.session
    processId := congrArg (·.processId) hdiffer.session
    interactive := congrArg (·.interactive) hdiffer.session
    environment := congrArg (·.environment) hdiffer.session
    aliases := congrArg (·.aliases) hdiffer.session
    status := congrArg (·.status) hdiffer.session
    line := congrArg (·.line) hdiffer.session
    leaving := congrArg (·.leaving) hdiffer.session
    world := hdiffer.world
    sight := congrArg (·.sight lists) houtput
    hidden := hdiffer.hidden
    unfailing := ⟨hunfailing, houtput ▸ hunfailing⟩ }

theorem alike_statusOf {mask : Mask platform} {lists : List Text → Bool}
    {left right : Shell World × Option Status} (hends : AlikeEnds mask lists left right) :
    Alike mask lists (statusOf left).1.session (statusOf right).1.session ∧
      (statusOf right).2 = (statusOf left).2 := by
  obtain ⟨leftAfter, outcome⟩ := left
  obtain ⟨rightAfter, other⟩ := right
  obtain rfl : other = outcome := hends.outcome
  cases other with
  | none => exact ⟨hends.session, hends.session.status⟩
  | some code => exact ⟨hends.session, rfl⟩

theorem alike_runReader {mask : Mask platform} {lists : List Text → Bool} {left right : Shell World}
    (halike : Alike mask lists left.session right.session) (content : Bytes)
    (hadmits : Admits mask lists
      (left.commands platform ((Line.ofBytes content).map Utf8.decodeLossy))) :
    Alike mask lists (left.runReader platform content).1.session
        (right.runReader platform content).1.session ∧
      (right.runReader platform content).2 = (left.runReader platform content).2 := by
  have hruns := alike_runLines halike true ((Line.ofBytes content).map Utf8.decodeLossy) hadmits
  rw [← runLines_eq_runEach] at hruns
  exact alike_statusOf hruns

/-- No command of a run can tell with which history the run goes on. -/
theorem runReader_history_unseen (mask : Mask platform) {left right : Shell World}
    (hdiffer : DifferInHistory mask left right) (hunfailing : left.session.output.Unfailing)
    (content : Bytes)
    (hspares : ∀ command ∈ left.commands platform ((Line.ofBytes content).map Utf8.decodeLossy),
      mask.Spares command) :
    let leftRun := left.runReader platform content
    let rightRun := right.runReader platform content
    rightRun.2 = leftRun.2 ∧
      Alike mask listsHistory leftRun.1.session rightRun.1.session ∧
      rightRun.1.session.output.commands = leftRun.1.session.output.commands ∧
      rightRun.1.session.output.reports = leftRun.1.session.output.reports ∧
      ((∀ command ∈ left.commands platform ((Line.ofBytes content).map Utf8.decodeLossy),
          Builtin.find? command.name ≠ some .history) →
        rightRun.1.session.output.printed = leftRun.1.session.output.printed) := by
  have hlisted := alike_runReader (hdiffer.alike hunfailing listsHistory) content
    (admits_listsHistory hspares)
  refine ⟨hlisted.2, hlisted.1, hlisted.1.commands, hlisted.1.reports, ?_⟩
  -- Where no command lists the history, all that is printed is compared.
  intro hnone
  have hunlisted := alike_runReader (hdiffer.alike hunfailing fun _ => false) content
    fun command hmember =>
      ⟨hspares command hmember, fun hhistory => absurd hhistory (hnone command hmember)⟩
  exact hunlisted.1.printed fun _ => rfl

end Shell

/-! ### A history in the root directory -/

namespace Host

open FileSystem

/-- Hosts that differ at most in a file that the root directory holds, or may hold. -/
structure AlikeBeside (name : Text) (left right : Host) : Prop where
  working : right.working = left.working
  elsewhere : ∀ location, location ≠ [name] →
    right.files.node? location = left.files.node? location
  left : ∃ content?, HoldsInRoot name left content?
  right : ∃ content?, HoldsInRoot name right content?

theorem working_update (host : Host) (path : Path) (change : Update) :
    (host.update path change).1.working = host.working := by
  unfold update put
  split <;> rfl

def rootMask {name : Text} (hname : IsName name) (processId : Nat) :
    Mask (Host.platform processId) where
  alike := AlikeBeside name
  hides path := path = '/' :: name
  symm halike :=
    ⟨halike.working.symm, fun location hother => (halike.elsewhere location hother).symm,
      halike.right, halike.left⟩
  trans hfront hback :=
    ⟨hback.working.trans hfront.working,
      fun location hother =>
        (hback.elsewhere location hother).trans (hfront.elsewhere location hother),
      hfront.left, hback.right⟩
  working halike := by simp only [Host.platform, workingDirectory?, halike.working]
  update := by
    rintro host path halike rfl change
    obtain ⟨content?, hholds⟩ := halike.left
    obtain ⟨after, hupdate, hafter⟩ :=
      (stores_confined (Host.launch processId) host _ _).update change (hholds.confined hname)
    have hworking := working_update host ('/' :: name) change
    have hfirst : (host.update ('/' :: name) change).1 = after := congrArg Prod.fst hupdate
    rw [hfirst] at hworking
    exact hfirst ▸ ⟨hworking, hafter.elsewhere, ⟨content?, hholds⟩, ⟨_, hafter.file.holdsInRoot⟩⟩

variable {name : Text}

theorem canonical?_root (hname : IsName name) {host : Host}
    (hdirectory : host.files.node? [name] = some .directory) :
    host.canonical? ('/' :: name) = some ('/' :: name) := by
  have hseek := seekSteps_root hname host.files false host.working (by simp [hdirectory])
  have habsolute : Path.isAbsolute ('/' :: name) = true := rfl
  rw [hdirectory] at hseek
  rw [canonical?, seek, hseek, habsolute]
  simp [pathOf, Text.joined]

theorem enter?_root (hname : IsName name) {host : Host}
    (hdirectory : host.files.node? [name] = some .directory) :
    host.enter? ('/' :: name) = some { host with working := ⟨[name], 0⟩ } := by
  have hseek := seekSteps_root hname host.files false host.working (by simp [hdirectory])
  rw [hdirectory] at hseek
  rw [enter?, find, if_neg (by simp [isTooLong_root hname]), seek, hseek]

/-- A move to a directory in the root does not touch a file beside it. -/
theorem sparesMove_root (hname : IsName name) {other : Text} (hother : IsName other)
    (hne : other ≠ name) (processId : Nat) (session : Session Host)
    (hdirectory : session.world.files.node? [other] = some .directory) :
    (rootMask hname processId).SparesMove session ('/' :: other) where
  canonical host halike := by
    have hthere : host.files.node? [other] = some .directory :=
      (halike.elsewhere [other] (by simpa using hne)).trans hdirectory
    exact (canonical?_root hother hthere).trans (canonical?_root hother hdirectory).symm
  enter directory hcanonical host halike := by
    have hthere : host.files.node? [other] = some .directory :=
      (halike.elsewhere [other] (by simpa using hne)).trans hdirectory
    obtain rfl := Option.some.inj ((canonical?_root hother hdirectory).symm.trans hcanonical)
    simp only [Host.platform, enter?_root hother hdirectory, enter?_root hother hthere]
    exact .some ⟨rfl, halike.elsewhere, halike.left, halike.right⟩

theorem isName_h : IsName ['h'] := ⟨by decide, by decide, by decide, by decide⟩

theorem spares_cd_tmp {session : Session Host}
    (hdirectory : session.world.files.node? [['t', 'm', 'p']] = some .directory) :
    (rootMask isName_h 2).Spares { session, name := "cd", arguments := ["/tmp".toList] } where
  child hnone := absurd hnone (show ¬ Builtin.find? "cd" = none by decide)
  move _ target place announced hrequest hdestination := by
    have hasked : Builtin.cd.request ["/tmp".toList] = .ok (.cd (some "/tmp".toList)) := by
      decide +kernel
    obtain rfl := Builtin.Request.cd.inj (Except.ok.inj (hasked.symm.trans hrequest))
    obtain rfl : "/tmp".toList = place := (Prod.mk.inj (Except.ok.inj hdestination)).1
    have hother : IsName ['t', 'm', 'p'] := ⟨by decide, by decide, by decide, by decide⟩
    exact sparesMove_root isName_h hother (by decide) 2 session hdirectory

end Host

namespace Shell

theorem spares_commands_cd_tmp {shell : Shell Host}
    (hname : shell.session.aliases.get? "cd" = none)
    (hdirectory : (remember (Host.platform 2) shell.countLine.session
      "cd /tmp").world.files.node? [['t', 'm', 'p']] = some .directory) :
    ∀ command ∈ shell.commands (Host.platform 2) ["cd /tmp".toList],
      (Host.rootMask Host.isName_h 2).Spares command := by
  have haccepted : Line.accepted? "cd /tmp" = some "cd /tmp".toList := by decide
  rw [commands_of_plain _ _ haccepted (by decide) hname (by decide) rfl]
  exact List.forall_mem_singleton.mpr (Host.spares_cd_tmp hdirectory)

/-- A shell on a bare host, which appends each line to a file. -/
def appendingOnBareHost : Shell Host :=
  { session :=
      { (onBareHost []).session with history := History.new (some "/h") 16 .eachLine } }

theorem runReader_history_unseen_move :
    let mask := Host.rootMask Host.isName_h 2
    let content := Utf8.encode "cd /tmp\n".toList
    let leftRun := (onBareHost []).runReader (Host.platform 2) content
    let rightRun := appendingOnBareHost.runReader (Host.platform 2) content
    DifferInHistory mask (onBareHost []) appendingOnBareHost ∧
      (onBareHost []).session.output.Unfailing ∧
        (∀ command ∈ (onBareHost []).commands (Host.platform 2)
            ((Line.ofBytes content).map Utf8.decodeLossy), mask.Spares command) ∧
          rightRun.2 = leftRun.2 ∧
            Session.Alike mask listsHistory leftRun.1.session rightRun.1.session := by
  intro mask content leftRun rightRun
  have habsent : Host.bare.files.node? [['h']] = none := by decide
  have hbeside : mask.alike Host.bare Host.bare :=
    ⟨rfl, fun _ _ => rfl, ⟨none, habsent⟩, ⟨none, habsent⟩⟩
  have hdiffer : DifferInHistory mask (onBareHost []) appendingOnBareHost :=
    ⟨rfl, hbeside, nofun, fun path hpath => (Option.some.inj hpath).symm⟩
  have hunfailing : (onBareHost []).session.output.Unfailing := ⟨rfl, rfl⟩
  have hlines : (Line.ofBytes content).map Utf8.decodeLossy = ["cd /tmp".toList] := by
    decide +kernel
  have hspares : ∀ command ∈ (onBareHost []).commands (Host.platform 2)
      ((Line.ofBytes content).map Utf8.decodeLossy), mask.Spares command := by
    rw [hlines]
    exact spares_commands_cd_tmp (by decide) (by decide +kernel)
  obtain ⟨hstatus, halike, -⟩ :=
    runReader_history_unseen mask hdiffer hunfailing content hspares
  exact ⟨hdiffer, hunfailing, hspares, hstatus, halike⟩

end Shell

end CommandShell
