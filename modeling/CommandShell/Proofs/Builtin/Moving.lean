import CommandShell.Proofs.Bindings.Order
import CommandShell.Proofs.Builtin.Requests
import CommandShell.Proofs.Environment.Children
import CommandShell.Proofs.Session.Effect

/-!
# What a change of directory leaves

A `cd` that succeeds brings the environment to the canonical form of the place that it was asked
for. Two variables tell of the move; whichever of them was missing comes behind all others, and of
these none is touched or moved.
-/

namespace CommandShell

/-! ### A move -/

/-- The variables that tell of a move. -/
def Environment.moveNames : List Text := ["OLDPWD", "PWD"]

/-- What tells of the move does, and everything else is what it was. -/
structure Environment.Moves (before after : Environment) : Prop where
  here : after.get? "PWD" = some after.directory
  left : after.get? "OLDPWD" = some before.directory
  names_eq : after.bindings.names =
    before.bindings.names ++ moveNames.filter (!before.bindings.names.contains ·)
  others : after.bindings.toList.filter (!moveNames.contains ·.1) =
    before.bindings.toList.filter (!moveNames.contains ·.1)
  hidden_eq : after.hidden =
    before.hidden.filter fun entry => !(moveNames.map Utf8.encode).contains entry.1

namespace Builtin

variable {World : Type} {platform : Platform World}

theorem moves_moved (environment : Environment) (directory : Path) :
    environment.Moves (moved environment directory) where
  here := Bindings.get?_put_self _ _ _
  left := by
    have hne : "OLDPWD".toList ≠ "PWD".toList := by decide
    exact (Bindings.get?_put_of_ne _ _ hne).trans (Bindings.get?_put_self _ _ _)
  names_eq := by
    have hne : "PWD".toList ≠ "OLDPWD".toList := by decide
    exact Bindings.names_put_put environment.bindings hne environment.directory directory
  others := by
    let keeps (name : Text) : Bool := !Environment.moveNames.contains name
    have hleft : keeps "OLDPWD" = false := by decide
    have hhere : keeps "PWD" = false := by decide
    exact (Bindings.filter_put _ keeps hhere directory).trans
      (Bindings.filter_put environment.bindings keeps hleft environment.directory)
  hidden_eq := by
    have hhidden : (moved environment directory).hidden =
        (environment.hidden.filter (·.1 != Utf8.encode "OLDPWD")).filter
          (·.1 != Utf8.encode "PWD") := rfl
    rw [hhidden, List.filter_filter]
    refine List.filter_congr fun entry _ => ?_
    have hcontains : (Environment.moveNames.map Utf8.encode).contains entry.1 =
        (entry.1 == Utf8.encode "OLDPWD" || entry.1 == Utf8.encode "PWD") := by
      simp only [Environment.moveNames, List.map_cons, List.map_nil, List.contains_cons,
        List.contains_nil, Bool.or_false]
    rw [hcontains, Bool.not_or, Bool.and_comm]
    rfl

/-- Where a change of directory is asked to lead. -/
inductive Heads (environment : Environment) : List Text → Text → Prop
  | home {arguments : List Text} (hnone : arguments = [] ∨ arguments = [[]]) :
      Heads environment arguments
        (((environment.get? "HOME").or (environment.get? "PWD")).getD "/")
  | back {place : Text} (hleft : environment.get? "OLDPWD" = some place) :
      Heads environment [['-']] place
  | there {place : Text} (hfilled : place ≠ []) (hdash : place ≠ ['-']) :
      Heads environment [place] place

theorem heads_of_destination {environment : Environment} {arguments : List Text} {place : Text}
    {announced : Bool} (hlength : arguments.length ≤ 1)
    (hdestination : destination environment arguments.head? = .ok (place, announced)) :
    Heads environment arguments place := by
  match arguments with
  | [] =>
      cases hdestination
      exact .home (.inl rfl)
  | [target] =>
      rw [List.head?_cons] at hdestination
      unfold destination at hdestination
      split at hdestination
      · next hnone => cases hnone
      · next hempty =>
        cases hempty
        cases hdestination
        exact .home (.inr rfl)
      · next hdash =>
        cases hdash
        split at hdestination
        · next directory hleft =>
          cases hdestination
          exact .back hleft
        · cases hdestination
      · next directory hfilled hdash htarget =>
        cases htarget
        cases hdestination
        refine .there ?_ ?_
        · rintro rfl
          exact hfilled rfl
        · rintro rfl
          exact hdash rfl
  | _ :: _ :: _ => simp at hlength

theorem changeDirectory_eq_ok {session : Session World} {target : Option Text} {status : Status}
    (hok : (changeDirectory platform session target).2 = .ok status) :
    ∃ place announced directory world,
      destination session.environment target = .ok (place, announced) ∧
      platform.canonical? session.world (Path.join session.environment.directory place) =
        some directory ∧
      platform.enter? session.world directory = some world ∧
      (changeDirectory platform session target).1.environment =
        moved session.environment directory := by
  unfold changeDirectory at hok ⊢
  split at hok
  · cases hok
  next place announced hdestination =>
  split at hok
  · cases hok
  next directory hcanonical =>
  split at hok
  · cases hok
  next world henter =>
  refine ⟨place, announced, directory, world, hdestination, hcanonical, henter, ?_⟩
  simp only
  split
  · obtain ⟨output, outcome, hconclude, -⟩ := Session.exists_conclude_eq
      { session with world, environment := moved session.environment directory }
      ([directory].flatMap (· ++ ['\n']))
    rw [Session.printLines, hconclude]
  · rfl

/-- Where writing cannot fail, a move tells at most where it led, and succeeds. -/
theorem changeDirectory_of_room {session : Session World} {target : Option Text} {place : Text}
    {announced : Bool} {directory : Path} {world : World} (hroom : session.output.room = none)
    (hdestination : destination session.environment target = .ok (place, announced))
    (hcanonical : platform.canonical? session.world
      (Path.join session.environment.directory place) = some directory)
    (henter : platform.enter? session.world directory = some world) :
    changeDirectory platform session target =
      ({ session with
          world
          environment := moved session.environment directory
          output :=
            if announced then session.output.emit (.printed (Utf8.encode (directory ++ ['\n'])))
            else session.output }, .ok 0) := by
  simp only [changeDirectory, hdestination, hcanonical, henter]
  split
  · simp [Session.printLines, Session.conclude, Session.print, Output.print, Output.write, hroom]
  · rfl

/-- A `cd` that is not asked for its usage and succeeds has carried out its one operand. -/
theorem run_cd_of_ok {session : Session World} {arguments : List Text} {status : Status}
    (hfree : arguments.head? ≠ some "--help".toList)
    (hok : (cd.run platform session arguments).2 = .ok status) :
    arguments.length ≤ 1 ∧
      cd.run platform session arguments = changeDirectory platform session arguments.head? := by
  cases hrequest : cd.request arguments with
  | error fault =>
      rw [run, hrequest] at hok
      cases hok
  | ok request =>
      obtain ⟨hhelp, -⟩ | ⟨-, rfl, hlength⟩ := request_cases hrequest
      · exact absurd hhelp hfree
      · refine ⟨hlength (by decide), ?_⟩
        rw [run, hrequest]
        rfl

theorem moves_of_run {session : Session World} {arguments : List Text} {status : Status}
    (hfree : arguments.head? ≠ some "--help".toList)
    (hok : (cd.run platform session arguments).2 = .ok status) :
    let after := (cd.run platform session arguments).1.environment
    session.environment.Moves after ∧
      ∃ place, Heads session.environment arguments place ∧
        platform.canonical? session.world (Path.join session.environment.directory place) =
          some after.directory := by
  intro after
  obtain ⟨hlength, hrun⟩ := run_cd_of_ok hfree hok
  rw [hrun] at hok
  obtain ⟨place, announced, directory, world, hdestination, hcanonical, -, hafter⟩ :=
    changeDirectory_eq_ok hok
  have hmoved : after = moved session.environment directory := by
    rw [← hafter, ← hrun]
  rw [hmoved]
  exact ⟨moves_moved _ directory, place, heads_of_destination hlength hdestination, hcanonical⟩

end Builtin

end CommandShell
