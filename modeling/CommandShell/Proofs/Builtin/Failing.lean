import CommandShell.Host
import CommandShell.Proofs.Session.Effect

/-!
# Built-ins that fail

A built-in other than `alias` comes to the change that it makes last, so one that fails has changed
nothing, apart from what it printed. The exception is `cd -`, which first moves and then tells where
to: when that is not taken, the move stands.
-/

namespace CommandShell.Builtin

variable {World : Type} (platform : Platform World)

/-- The arguments ask for the directory that was left last, and it has been entered: what remains is
to tell it. -/
structure MovesBack (session : Session World) (builtin : Builtin) (arguments : List Text)
    (directory : Path) (world : World) : Prop where
  asked : builtin.request arguments = .ok (.cd (some ['-']))
  found : ∃ place, session.environment.get? "OLDPWD" = some place ∧
    platform.canonical? session.world (Path.join session.environment.directory place) =
      some directory
  entered : platform.enter? session.world directory = some world

variable {platform} {session : Session World} {builtin : Builtin} {arguments : List Text}

theorem MovesBack.run {directory : Path} {world : World}
    (hmoves : MovesBack platform session builtin arguments directory world) :
    builtin.run platform session arguments =
      { session with world, environment := moved session.environment directory }.printLines
        [directory] := by
  obtain ⟨place, hplace, hcanonical⟩ := hmoves.found
  unfold Builtin.run
  rw [hmoves.asked]
  simp only [perform, changeDirectory, destination, hplace, hcanonical, hmoves.entered, if_true]

/-- Only `cd -` tells where it goes. -/
theorem eq_dash_of_announced {environment : Environment} {target : Option Text} {place : Text}
    (hdestination : destination environment target = .ok (place, true)) :
    target = some ['-'] ∧ environment.get? "OLDPWD" = some place := by
  unfold destination at hdestination
  split at hdestination
  · cases hdestination
  · cases hdestination
  · split at hdestination
    · next directory hdirectory =>
      cases hdestination
      exact ⟨rfl, hdirectory⟩
    · cases hdestination
  · cases hdestination

theorem fst_run_of_error (hother : builtin ≠ .alias) {failure : Failure}
    (hfails : (builtin.run platform session arguments).2 = .error failure)
    (hstays : ∀ directory world, ¬ MovesBack platform session builtin arguments directory world) :
    (builtin.run platform session arguments).1 =
      { session with output := (builtin.run platform session arguments).1.output } := by
  unfold Builtin.run at hfails ⊢
  split
  · rfl
  next request hrequest =>
  simp only [hrequest] at hfails
  have heffect := effect_perform platform session request
  generalize perform platform session request = result at hfails heffect
  cases heffect with
  | refuse => rfl
  | tell => rfl
  | leave => cases hfails
  | @move target place announced directory world _ _ hdestination hcanonical henter _ hsilent =>
      -- A move that is not told cannot fail any more.
      cases announced with
      | false =>
          obtain ⟨-, rfl⟩ := hsilent rfl
          cases hfails
      | true =>
          obtain ⟨rfl, hplace⟩ := eq_dash_of_announced hdestination
          exact absurd ⟨hrequest, ⟨place, hplace, hcanonical⟩, henter⟩ (hstays directory world)
  | bind => cases hfails
  | unbind => cases hfails
  | define =>
      rcases owner?_of_request hrequest with hnone | howner
      · cases hnone
      · exact absurd (Option.some.inj howner).symm hother

/-- A built-in that fails leaves all but its output as it was. When `cd -` fails behind its move,
the session is where that led, and else as it was. -/
theorem run_error_keeps (hother : builtin ≠ .alias) {failure : Failure}
    (hfails : (builtin.run platform session arguments).2 = .error failure) :
    let after := (builtin.run platform session arguments).1
    ((∀ directory world, ¬ MovesBack platform session builtin arguments directory world) →
      after = { session with output := after.output }) ∧
    ∀ directory world, MovesBack platform session builtin arguments directory world →
      after = { session with
        world, environment := moved session.environment directory, output := after.output } := by
  refine ⟨fst_run_of_error hother hfails, fun directory world hmoves => ?_⟩
  obtain ⟨output, outcome, hconclude, -⟩ := Session.exists_conclude_eq
    { session with world, environment := moved session.environment directory }
    ([directory].flatMap (· ++ ['\n']))
  have hrun := hmoves.run
  rw [Session.printLines, hconclude] at hrun
  simp only [hrun]

/-- A session on a bare host, whose output takes so many bytes. -/
def onBareHost (pairs : List (Text × Text)) (room : Nat) : Session Host :=
  { Session.new "hsh" 1 (Environment.ofPairs pairs "/") (History.new none 16 .onExit)
      Host.bare with
    output := { room := some room } }

theorem run_error_keeps_missing_home :
    let before := onBareHost [("HOME", "/none")] 0
    let result := cd.run (Host.platform 2) before []
    Builtin.cd ≠ .alias ∧ result.2 = .error (.cannotEnter "/none") ∧
      result.1 = { before with output := result.1.output } := by
  intro before result
  have hother : Builtin.cd ≠ .alias := by decide
  have hfails : (cd.run (Host.platform 2) before []).2 = .error (.cannotEnter "/none") := by rfl
  refine ⟨hother, hfails, (run_error_keeps hother hfails).1 fun directory world hmoves => ?_⟩
  exact absurd (Except.ok.inj hmoves.asked) (by decide)

/-- The move of `cd -` stands although it is reported as failed. -/
theorem run_cd_back_refused :
    let before := onBareHost [("OLDPWD", "/tmp")] 0
    let result := cd.run (Host.platform 2) before ["-"]
    Builtin.cd ≠ .alias ∧ result.2 = .error (.foreign "output limit reached") ∧
      before.environment.directory = "/" ∧ result.1.environment.directory = "/tmp" ∧
        (result.1.world.workingDirectory? = some "/tmp" ∧
          before.world.workingDirectory? = some "/") := by
  refine ⟨by decide, rfl, rfl, rfl, rfl, rfl⟩

end CommandShell.Builtin
