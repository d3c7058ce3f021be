import CommandShell.Proofs.Shell.Directory
import Mathlib.Logic.Function.Iterate

/-!
# The way back

A `cd` that succeeds takes down the directory that it left, and `cd -` reads it there. As long as
the directories can be entered, the two places that a session remembers are only ever swapped, so
that going back leads where the session was, and going back twice changes nothing.
-/

namespace CommandShell

variable {World : Type} {platform : Platform World}

/-- No move changes where an absolute path leads, and a directory that can be entered by its
canonical form is known by that form from then on. -/
structure Platform.Static (platform : Platform World) : Prop where
  kept : ∀ {world after directory path}, platform.enter? world directory = some after →
    Path.isAbsolute path = true →
      platform.canonical? after path = platform.canonical? world path ∧
        (platform.enter? after path).isSome = (platform.enter? world path).isSome
  canonical : ∀ {world after path directory}, Path.isAbsolute path = true →
    platform.canonical? world path = some directory →
      platform.enter? world directory = some after →
        Path.isAbsolute directory = true ∧
          platform.canonical? world directory = some directory ∧
            platform.workingDirectory? after = some directory

/-- A directory in its canonical form that can be entered. -/
structure Platform.Rests (platform : Platform World) (world : World) (directory : Path) :
    Prop where
  absolute : Path.isAbsolute directory = true
  canonical : platform.canonical? world directory = some directory
  accessible : (platform.enter? world directory).isSome

theorem Platform.Rests.enter (hstatic : platform.Static) {world after : World}
    {directory place : Path} (hrests : platform.Rests world place)
    (henter : platform.enter? world directory = some after) : platform.Rests after place := by
  obtain ⟨hcanonical, haccessible⟩ := hstatic.kept henter hrests.absolute
  exact ⟨hrests.absolute, hcanonical.trans hrests.canonical, haccessible ▸ hrests.accessible⟩

namespace Session

/-- The session and its process are here, and its variables tell so and where it came from. -/
structure Came (platform : Platform World) (session : Session World) (here there : Path) :
    Prop where
  directory : session.environment.directory = here
  working : platform.workingDirectory? session.world = some here
  pwd : session.environment.get? "PWD" = some here
  oldpwd : session.environment.get? "OLDPWD" = some there

/-- A session that can go back where it came from, and from there here again. -/
structure Paired (platform : Platform World) (session : Session World) (here there : Path) : Prop
    extends Came platform session here there where
  restsHere : platform.Rests session.world here
  restsThere : platform.Rests session.world there
  room : session.output.room = none

theorem paired_of_enter (hstatic : platform.Static) {before after : Session World}
    {path here : Path} (hrests : platform.Rests before.world before.environment.directory)
    (habsolute : Path.isAbsolute path = true)
    (hcanonical : platform.canonical? before.world path = some here)
    (henter : platform.enter? before.world here = some after.world)
    (hmoved : after.environment = Builtin.moved before.environment here)
    (hroom : after.output.room = none) :
    after.Paired platform here before.environment.directory := by
  obtain ⟨hhere, hself, hworking⟩ := hstatic.canonical habsolute hcanonical henter
  have hmoves := Builtin.moves_moved before.environment here
  have haccessible : (platform.enter? before.world here).isSome := by rw [henter]; rfl
  exact
    { directory := by rw [hmoved]; rfl
      working := hworking
      pwd := by rw [hmoved]; exact hmoves.here
      oldpwd := by rw [hmoved]; exact hmoves.left
      restsHere := Platform.Rests.enter hstatic ⟨hhere, hself, haccessible⟩ henter
      restsThere := hrests.enter hstatic henter
      room := hroom }

end Session

/-! ### One move -/

/-- What a `cd` leaves that found its way, where writing cannot fail. -/
theorem Command.exists_after_eq {command : Command World} {target : Option Text} {place : Text}
    {announced : Bool} {directory : Path} {world : World}
    (hroom : command.session.output.room = none)
    (hended : command.ended platform = Builtin.changeDirectory platform
      (command.session.emit (.dispatched command.words)) target)
    (hdestination : Builtin.destination command.session.environment target =
      .ok (place, announced))
    (hcanonical : platform.canonical? command.session.world
      (Path.join command.session.environment.directory place) = some directory)
    (henter : platform.enter? command.session.world directory = some world) :
    (command.ended platform).2 = .ok 0 ∧ ∃ output : Output, output.room = none ∧
      output.printed = command.session.output.printed ++
        (if announced then Utf8.encode (directory ++ ['\n']) else []) ∧
      command.after platform =
        { command.session with
          world, environment := Builtin.moved command.session.environment directory, status := 0,
          output } := by
  have hunbounded : (command.session.emit (.dispatched command.words)).output.room = none := hroom
  have hmove := Builtin.changeDirectory_of_room hunbounded hdestination hcanonical henter
  rw [← hended] at hmove
  refine ⟨congrArg Prod.snd hmove, ?_⟩
  rw [after_eq, hmove]
  obtain ⟨output, hnoted, hkept, hsettled⟩ := Session.exists_settled_eq
    { command.session.emit (.dispatched command.words) with
      world
      environment := Builtin.moved command.session.environment directory
      output :=
        if announced then
          (command.session.emit (.dispatched command.words)).output.emit
            (.printed (Utf8.encode (directory ++ ['\n'])))
        else (command.session.emit (.dispatched command.words)).output } command.name
  refine ⟨output, ?_, ?_, hsettled⟩
  · rw [hkept]
    cases announced <;> exact hroom
  · rw [hnoted.printed fun _ => id]
    cases announced <;> simp [Output.printed, Output.emit, Session.emit]

theorem Command.Enters.paired (hstatic : platform.Static) {command : Command World}
    (henters : command.Enters platform)
    (hrests : platform.Rests command.session.world command.session.environment.directory)
    (hroom : command.session.output.room = none) :
    (command.after platform).Paired platform (command.after platform).environment.directory
      command.session.environment.directory := by
  have hok := henters.succeeded
  rw [henters.ended_eq] at hok
  obtain ⟨-, hrun⟩ := Builtin.run_cd_of_ok henters.free hok
  rw [hrun] at hok
  obtain ⟨place, announced, here, world, hdestination, hcanonical, henter, -⟩ :=
    Builtin.changeDirectory_eq_ok hok
  obtain ⟨-, output, hunbounded, -, hafter⟩ := Command.exists_after_eq hroom
    (henters.ended_eq.trans hrun) hdestination hcanonical henter
  rw [hafter]
  exact Session.paired_of_enter hstatic hrests (Path.isAbsolute_join hrests.absolute place)
    hcanonical henter rfl hunbounded

/-- A command that goes back where the session came from. -/
def Command.back (session : Session World) : Command World :=
  { session, name := "cd", arguments := ["-"] }

def Session.goBack (platform : Platform World) (session : Session World) : Session World :=
  (Command.back session).after platform

/-- Going back swaps the two places and tells the one that it leads to. -/
theorem Session.Paired.goBack (hstatic : platform.Static) {session : Session World}
    {here there : Path} (hpaired : session.Paired platform here there) :
    ((Command.back session).ended platform).2 = .ok 0 ∧
      (session.goBack platform).output.printed =
        session.output.printed ++ Utf8.encode (there ++ ['\n']) ∧
      (session.goBack platform).Paired platform there here := by
  obtain rfl := hpaired.directory
  have hended : (Command.back session).ended platform = Builtin.changeDirectory platform
      (session.emit (.dispatched (Command.back session).words)) (some ['-']) := rfl
  have hdestination : Builtin.destination session.environment (some ['-']) = .ok (there, true) := by
    have hleft := hpaired.oldpwd
    simp only [Builtin.destination, hleft]
  have hcanonical : platform.canonical? session.world
      (Path.join session.environment.directory there) = some there := by
    rw [Path.join, if_pos hpaired.restsThere.absolute]
    exact hpaired.restsThere.canonical
  obtain ⟨world, henter⟩ := Option.isSome_iff_exists.mp hpaired.restsThere.accessible
  have hroom : (Command.back session).session.output.room = none := hpaired.room
  obtain ⟨hok, output, hunbounded, hprinted, hafter⟩ :=
    Command.exists_after_eq hroom hended hdestination hcanonical henter
  rw [Session.goBack, hafter]
  refine ⟨hok, hprinted, ?_⟩
  exact paired_of_enter hstatic hpaired.restsHere hpaired.restsThere.absolute
    hpaired.restsThere.canonical henter rfl hunbounded

/-- An even number of ways back leads nowhere else. -/
theorem Session.Paired.iterate_goBack (hstatic : platform.Static) {session : Session World}
    {here there : Path} (hpaired : session.Paired platform here there) (rounds : Nat) :
    ((Session.goBack platform)^[2 * rounds] session).Paired platform here there := by
  induction rounds with
  | zero => exact hpaired
  | succ rounds ih =>
      obtain ⟨-, -, hback⟩ := ih.goBack hstatic
      obtain ⟨-, -, hagain⟩ := hback.goBack hstatic
      rw [Nat.mul_succ, Nat.add_comm, Function.iterate_add_apply]
      exact hagain

/-- A `cd` that succeeds is undone by `cd -`, which tells where it leads back to; from there on an
even number of them changes nothing. -/
theorem Command.Enters.goes_back (hstatic : platform.Static) {command : Command World}
    (henters : command.Enters platform)
    (hrests : platform.Rests command.session.world command.session.environment.directory)
    (hroom : command.session.output.room = none) :
    let home := command.session.environment.directory
    let went := command.after platform
    let there := went.environment.directory
    let returned := went.goBack platform
    ((Command.back went).ended platform).2 = .ok 0 ∧
      returned.output.printed = went.output.printed ++ Utf8.encode (home ++ ['\n']) ∧
        returned.Came platform home there ∧
          ∀ rounds, ((Session.goBack platform)^[2 * rounds] returned).Came platform home there := by
  intro home went there returned
  have hpaired : went.Paired platform there home := henters.paired hstatic hrests hroom
  obtain ⟨hok, hprinted, hreturned⟩ := hpaired.goBack hstatic
  exact ⟨hok, hprinted, hreturned.toCame,
    fun rounds => (hreturned.iterate_goBack hstatic rounds).toCame⟩

/-! ### A host -/

/-- Entering a directory changes where a host works, and nothing about its files. -/
theorem Host.static_platformWith (launch : Host → Launch → Except Fault (ChildRun Host)) :
    (platformWith launch).Static where
  kept := absolute_of_enter?
  canonical habsolute hcanonical henter := by
    obtain ⟨hself, hagain⟩ := canonical?_canonical habsolute hcanonical henter
    exact ⟨hself, hagain, workingDirectory?_of_enter? habsolute hcanonical henter⟩

/-- The way back from behind a link and dots. -/
theorem Command.Enters.goes_back_link :
    let command : Command Host :=
      { session := (Shell.onBareHost []).session, name := "cd", arguments := ["bin/../lib/."] }
    let returned := (command.after (Host.platform 2)).goBack (Host.platform 2)
    (Host.platform 2).Static ∧ command.Enters (Host.platform 2) ∧
      (Host.platform 2).Rests command.session.world "/" ∧ command.session.output.room = none ∧
        returned.output.printed = Utf8.encode "/\n" ∧
          ((Session.goBack (Host.platform 2))^[2 * 7] returned).Came (Host.platform 2) "/"
            "/usr/lib" := by
  intro command returned
  have hstatic : (Host.platform 2).Static := Host.static_platformWith (Host.launch 2)
  have henters : command.Enters (Host.platform 2) :=
    ⟨by decide, by decide, by decide +kernel⟩
  have hrests : (Host.platform 2).Rests command.session.world "/" :=
    ⟨by decide, by decide +kernel, by decide +kernel⟩
  obtain ⟨-, hprinted, -, hrounds⟩ := henters.goes_back hstatic hrests rfl
  have hthere : (command.after (Host.platform 2)).environment.directory = "/usr/lib".toList := by
    decide +kernel
  have hnothing : (command.after (Host.platform 2)).output.printed = [] := by decide +kernel
  rw [hnothing] at hprinted
  rw [hthere] at hrounds
  exact ⟨hstatic, henters, hrests, rfl, hprinted, hrounds 7⟩

end CommandShell
