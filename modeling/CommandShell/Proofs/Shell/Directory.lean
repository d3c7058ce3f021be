import CommandShell.Proofs.Builtin.Moving
import CommandShell.Proofs.Environment.Blocks
import CommandShell.Proofs.Host.Canonical
import CommandShell.Proofs.Shell.Reaching
import CommandShell.Proofs.Shell.Unseen

/-!
# Where a session works

The environment of a session says where its process works, and it says so all along: a `cd` enters
the directory that it takes down, and nothing else moves either of them. This asks of the system
that the canonical form of a path leads back to itself, and that nobody takes the directory away.
-/

namespace CommandShell

variable {World : Type} {platform : Platform World}

theorem Path.isAbsolute_join {left : Path} (hleft : isAbsolute left = true) (right : Path) :
    isAbsolute (join left right) = true := by
  unfold join
  split
  · assumption
  · cases left with
    | nil => cases hleft
    | cons first rest => split <;> exact hleft

/-- A process works where it went last, and children and files make no difference to that. -/
structure Platform.Steady (platform : Platform World) : Prop where
  absolute : ∀ {world directory}, platform.workingDirectory? world = some directory →
    Path.isAbsolute directory = true
  enter : ∀ {world after path directory}, Path.isAbsolute path = true →
    platform.canonical? world path = some directory →
      platform.enter? world directory = some after →
        platform.workingDirectory? after = some directory
  update : ∀ world path change,
    platform.workingDirectory? (platform.update world path change).1 =
      platform.workingDirectory? world
  launch : ∀ {world request child}, platform.launch world request = .ok child →
    platform.workingDirectory? child.world = platform.workingDirectory? world

/-- The process of a session works where the session takes itself to be. -/
def Session.Placed (platform : Platform World) (session : Session World) : Prop :=
  platform.workingDirectory? session.world = some session.environment.directory

theorem Platform.Steady.workingDirectory?_of_writes (hsteady : platform.Steady)
    {before after : World} (hwrites : platform.Writes before after) :
    platform.workingDirectory? after = platform.workingDirectory? before := by
  induction hwrites with
  | none => rfl
  | write _ path change ih => rw [hsteady.update, ih]

namespace Session

theorem Between.placed (hsteady : platform.Steady) {before after : Session World}
    (hbetween : Between platform before after) (hplaced : before.Placed platform) :
    after.Placed platform := by
  unfold Placed
  rw [hsteady.workingDirectory?_of_writes hbetween.writes, hbetween.environment_eq]
  exact hplaced

theorem Effect.placed (hsteady : platform.Steady) {session : Session World} {name : Text}
    {arguments : List Text} {result : Session World × Except Failure Status}
    (heffect : Effect platform session name arguments result)
    (hplaced : session.Placed platform) : result.1.Placed platform := by
  cases heffect with
  | refuse => exact hplaced
  | child _ _ hstart =>
      unfold Child.start at hstart
      split at hstart
      · cases hstart
      · exact (hsteady.launch hstart).trans hplaced
  | perform _ _ heffect =>
      cases heffect with
      | move _ hcanonical henter =>
          exact hsteady.enter (Path.isAbsolute_join (hsteady.absolute hplaced) _) hcanonical henter
      | unbind =>
          unfold Placed
          rw [Environment.directory_foldl_unset]
          exact hplaced
      | refuse | tell | leave | bind | define => exact hplaced

end Session

theorem Command.placed_after (hsteady : platform.Steady) {command : Command World}
    (hplaced : command.session.Placed platform) : (command.after platform).Placed platform :=
  command.between_ended.placed hsteady ((command.effect_ended platform).placed hsteady hplaced)

/-- A `cd` that is not asked for its usage and succeeds. -/
structure Command.Enters (platform : Platform World) (command : Command World) : Prop where
  named : Builtin.find? command.name = some .cd
  free : command.arguments.head? ≠ some "--help".toList
  succeeded : (command.ended platform).2 = .ok 0

theorem Command.Enters.ended_eq {command : Command World} (henters : command.Enters platform) :
    command.ended platform = Builtin.cd.run platform
      (command.session.emit (.dispatched command.words)) command.arguments := by
  rw [ended, Session.dispatch, henters.named]

theorem Command.Enters.moves {command : Command World} (henters : command.Enters platform) :
    command.session.environment.Moves (command.after platform).environment ∧
      ∃ place, Builtin.Heads command.session.environment command.arguments place ∧
        platform.canonical? command.session.world
            (Path.join command.session.environment.directory place) =
          some (command.after platform).environment.directory := by
  have hok := henters.succeeded
  rw [henters.ended_eq] at hok
  rw [command.between_ended.environment_eq, henters.ended_eq]
  exact Builtin.moves_of_run henters.free hok

/-! ### A run -/

namespace Shell

/-- A session whose process works where it says stays one, whatever is run in it; and each `cd` that
succeeds leads to the canonical form of what it was asked for, and tells so. -/
theorem placed_of_reaches (hsteady : platform.Steady) (shell : Shell World)
    (hplaced : shell.session.Placed platform) :
    (∀ taken session, Reaches platform shell.session taken session →
      session.Placed platform ∧
        ∀ command ∈ taken,
          command.session.Placed platform ∧ (command.after platform).Placed platform ∧
            (command.Enters platform →
              command.session.environment.Moves (command.after platform).environment ∧
                ∃ place, Builtin.Heads command.session.environment command.arguments place ∧
                  platform.canonical? command.session.world
                      (Path.join command.session.environment.directory place) =
                    some (command.after platform).environment.directory)) ∧
    ∀ ways : List Drive, ∃ taken,
      Reaches platform shell.session taken (ways.foldl (drive platform) shell).session ∧
        (ways.foldl (drive platform) shell).session.output.commands =
          shell.session.output.commands ++ taken.map Command.words := by
  constructor
  · intro taken session hreaches
    obtain ⟨hmet, hsession⟩ := hreaches.keeps (fun _ _ hbetween => hbetween.placed hsteady)
      (fun _ _ => Command.placed_after hsteady) hplaced
    refine ⟨hsession, ?_⟩
    intro command hmember
    exact ⟨hmet command hmember, Command.placed_after hsteady (hmet command hmember),
      fun henters => henters.moves⟩
  · intro ways
    obtain ⟨taken, hreaches⟩ := comes_drives platform shell ways
    exact ⟨taken, hreaches, hreaches.commands_output⟩

end Shell

/-! ### A host -/

/-- Children may do what they like to files, as long as they leave the directory. -/
theorem Host.steady_platformWith {launch : Host → Launch → Except Fault (ChildRun Host)}
    (hchildren : ∀ host request child, launch host request = .ok child →
      child.world.working = host.working) : (platformWith launch).Steady where
  absolute {host directory} hdirectory := by
    simp only [platformWith, platform, workingDirectory?] at hdirectory
    split at hdirectory
    · obtain rfl := Option.some.inj hdirectory
      rfl
    · cases hdirectory
  enter habsolute hcanonical henter :=
    workingDirectory?_of_enter? habsolute hcanonical henter
  update host path change := by
    simp only [platformWith, platform, workingDirectory?, working_update]
  launch {host request child} hlaunch := by
    simp only [platformWith, platform, workingDirectory?, hchildren host request child hlaunch]

theorem Host.steady_platform (processId : Nat) : (Host.platform processId).Steady :=
  steady_platformWith fun host request child hlaunch => by
    rw [world_launch processId host request child hlaunch]

/-- A move behind a link is a move to where the link leads. -/
theorem Shell.placed_of_reaches_link :
    let command : Command Host :=
      { session := (onBareHost []).session, name := "cd", arguments := ["/bin/../lib"] }
    let after := command.after (Host.platform 2)
    (Host.platform 2).Steady ∧ command.session.Placed (Host.platform 2) ∧
      command.Enters (Host.platform 2) ∧ after.Placed (Host.platform 2) ∧
        after.environment.directory = "/usr/lib" ∧
          command.session.environment.Moves after.environment := by
  intro command after
  have hsteady := Host.steady_platform 2
  have hplaced : command.session.Placed (Host.platform 2) := by rfl
  have henters : command.Enters (Host.platform 2) :=
    ⟨by decide, by decide, by decide +kernel⟩
  obtain ⟨hreached, -⟩ := placed_of_reaches hsteady (onBareHost []) hplaced
  obtain ⟨hafter, hcommands⟩ := hreached [command] after (.run command .start)
  obtain ⟨-, -, hmoves⟩ := hcommands command (List.mem_singleton_self command)
  exact ⟨hsteady, hplaced, henters, hafter, by decide +kernel, (hmoves henters).1⟩

end CommandShell
