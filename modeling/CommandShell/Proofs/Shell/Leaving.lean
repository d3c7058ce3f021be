import CommandShell.Proofs.Builtin.ExitStatus
import CommandShell.Proofs.Shell.Commands
import CommandShell.Proofs.Shell.Composition
import CommandShell.Proofs.Shell.Recording

/-!
# How a session is left

A session is left by an `exit` that succeeds and by nothing else; that command is the last of its
line, and its status is the one with which the session ends. Every status on the way fits a byte.
-/

namespace CommandShell

variable {World : Type} {platform : Platform World}

/-- A status with which a process can end. -/
def IsByte (status : Int) : Prop :=
  0 ≤ status ∧ status ≤ 255

structure Session.InBytes (session : Session World) : Prop where
  status : IsByte session.status
  leaving : ∀ code, session.leaving = some code → IsByte code

/-- An `exit` that is not asked for its usage and is not refused. -/
structure Command.Exits (platform : Platform World) (command : Command World) (code : Status) :
    Prop where
  named : Builtin.find? command.name = some .exit
  asked : ∃ operand, Builtin.exit.request command.arguments = .ok (.exit operand)
  succeeded : (command.ended platform).2 = .ok code

/-! ### Statuses -/

theorem isByte_zero : IsByte 0 := by
  unfold IsByte
  omega

theorem Failure.isByte_status (failure : Failure) : IsByte failure.status := by
  unfold status IsByte
  split <;> omega

theorem Ending.isByte_status (ending : Ending) : IsByte ending.status := by
  cases ending with
  | exited code =>
      have hcode := code.isLt
      simp only [status, IsByte]
      omega
  | killed signal =>
      have hlimit := signal.le_limit
      simp only [status, IsByte]
      omega

theorem Builtin.isByte_exitStatus? {operand : Text} {code : Status}
    (hcode : exitStatus? operand = some code) : IsByte code := by
  obtain ⟨number, -, -, rfl⟩ := exitStatus?_eq_some_iff.mp hcode
  unfold IsByte
  omega

/-! ### One command -/

namespace Session

variable {session : Session World} {name : Text} {arguments : List Text}
  {result : Session World × Except Failure Status}

theorem Effect.status_eq (heffect : Effect platform session name arguments result) :
    result.1.status = session.status := by
  cases heffect with
  | refuse => rfl
  | perform _ _ heffect => cases heffect <;> rfl
  | child => rfl

theorem Effect.isByte_of_ok (heffect : Effect platform session name arguments result)
    (hstatus : IsByte session.status) {status : Status} (hok : result.2 = .ok status) :
    IsByte status := by
  cases heffect with
  | refuse => cases hok
  | child => exact Except.ok.inj hok ▸ Ending.isByte_status _
  | perform _ _ heffect =>
      cases heffect with
      | refuse => cases hok
      | tell _ _ hzero => exact hzero status hok ▸ isByte_zero
      | @leave operand code hcode =>
          obtain rfl := Except.ok.inj hok
          cases operand with
          | none => exact Option.some.inj hcode ▸ hstatus
          | some text => exact Builtin.isByte_exitStatus? hcode
      | move _ _ _ _ _ hzero => exact hzero status hok ▸ isByte_zero
      | bind => exact Except.ok.inj hok ▸ isByte_zero
      | unbind => exact Except.ok.inj hok ▸ isByte_zero
      | define _ _ _ hzero => exact hzero status hok ▸ isByte_zero

/-- Nothing but an `exit` that succeeds sets a session to be left. -/
theorem Effect.leaving_cases (heffect : Effect platform session name arguments result) :
    result.1.leaving = session.leaving ∨
      ∃ code, Builtin.find? name = some .exit ∧
        (∃ operand, Builtin.exit.request arguments = .ok (.exit operand)) ∧
          result.2 = .ok code ∧ result.1.leaving = some code := by
  cases heffect with
  | refuse => exact .inl rfl
  | child => exact .inl rfl
  | perform hname hrequest heffect =>
      cases heffect with
      | @leave operand code =>
          rcases Builtin.owner?_of_request hrequest with hnone | howner
          · cases hnone
          · obtain rfl := Option.some.inj howner
            exact .inr ⟨code, hname, ⟨operand, hrequest⟩, rfl, rfl⟩
      | _ => exact .inl rfl

theorem status_flush_endInterrupt (session : Session World) :
    session.endInterrupt.flush.status = session.status ∧
      session.endInterrupt.flush.leaving = session.leaving := by
  have hend : session.endInterrupt.status = session.status ∧
      session.endInterrupt.leaving = session.leaving := by
    unfold endInterrupt
    split
    · rw [print_eq]
      exact ⟨rfl, rfl⟩
    · exact ⟨rfl, rfl⟩
  unfold flush
  split <;> exact hend

end Session

namespace Command

variable {command : Command World} {code : Status}

theorem status_after (command : Command World) :
    (command.after platform).status =
      match (command.ended platform).2 with
      | .ok status => status
      | .error failure => failure.status := by
  rw [after_eq, (Session.status_flush_endInterrupt _).1]
  cases (command.ended platform).2 <;> rfl

theorem leaving_after (command : Command World) :
    (command.after platform).leaving = (command.ended platform).1.leaving := by
  rw [after_eq, (Session.status_flush_endInterrupt _).2]
  cases (command.ended platform).2 <;> rfl

theorem inBytes_ended (hbytes : command.session.InBytes) : (command.ended platform).1.InBytes := by
  have heffect := command.effect_ended platform
  refine ⟨heffect.status_eq ▸ hbytes.status, fun code hcode => ?_⟩
  rcases heffect.leaving_cases with hsame | ⟨other, -, -, hok, hother⟩
  · exact hbytes.leaving code (hsame ▸ hcode)
  · obtain rfl := Option.some.inj (hother.symm.trans hcode)
    exact heffect.isByte_of_ok hbytes.status hok

theorem inBytes_after (hbytes : command.session.InBytes) : (command.after platform).InBytes := by
  have hended : (command.ended platform).1.InBytes := inBytes_ended hbytes
  refine ⟨?_, fun code hcode => hended.leaving code (leaving_after command ▸ hcode)⟩
  rw [status_after]
  split
  · next status hok =>
    exact (command.effect_ended platform).isByte_of_ok hbytes.status hok
  · exact Failure.isByte_status _

theorem leaving_after_iff (hstays : command.session.leaving = none) :
    (command.after platform).leaving = some code ↔ command.Exits platform code := by
  rw [leaving_after]
  constructor
  · intro hleaving
    rcases (command.effect_ended platform).leaving_cases with
      hsame | ⟨other, hname, hasked, hok, hother⟩
    · have hnone : (command.ended platform).1.leaving = none := hsame.trans hstays
      rw [hnone] at hleaving
      cases hleaving
    · obtain rfl := Option.some.inj (hother.symm.trans hleaving)
      exact ⟨hname, hasked, hok⟩
  · rintro ⟨hname, ⟨operand, hasked⟩, hok⟩
    have hended : command.ended platform =
        Builtin.leave (command.session.emit (.dispatched command.words)) operand := by
      simp only [ended, Session.dispatch, hname, Builtin.run, hasked, Builtin.perform]
    rw [hended] at hok ⊢
    unfold Builtin.leave at hok ⊢
    split
    · exact congrArg some (Except.ok.inj hok)
    · split
      · simp_all
      · simp_all

theorem Exits.status_after (hexits : command.Exits platform code) :
    (command.after platform).status = code := by
  rw [Command.status_after, hexits.succeeded]

end Command

/-! ### A line -/

namespace Shell

variable {start final : Session World} {taken : List (Command World)} {code : Status}

theorem Course.leaving_iff (hcourse : Course platform start taken final)
    (hstays : start.leaving = none) :
    final.leaving = some code ↔ ∃ command ∈ taken, command.Exits platform code := by
  induction hcourse with
  | done session => simp [hstays]
  | leave command => simp [Command.leaving_after_iff hstays]
  | stay command hleaving hrest ih =>
      rw [ih hleaving, List.exists_mem_cons_iff]
      -- The first command did not leave the session, so it was no `exit` that succeeded.
      have hnone : ¬ command.Exits platform code := by
        intro hexits
        rw [(Command.leaving_after_iff hstays).mpr hexits] at hleaving
        cases hleaving
      exact (or_iff_right hnone).symm

/-- Behind an `exit` that succeeds, nothing is dispatched any more. -/
theorem Course.last_of_exits (hcourse : Course platform start taken final)
    (hstays : start.leaving = none) {earlier later : List (Command World)}
    {command : Command World} (htaken : taken = earlier ++ command :: later)
    (hexits : command.Exits platform code) : later = [] ∧ final = command.after platform := by
  induction hcourse generalizing earlier with
  | done session => simp at htaken
  | leave only =>
      cases earlier with
      | nil =>
          obtain ⟨rfl, rfl⟩ := List.cons.inj htaken
          exact ⟨rfl, rfl⟩
      | cons first rest => simp at htaken
  | stay first hleaving hrest ih =>
      cases earlier with
      | nil =>
          obtain ⟨rfl, -⟩ := List.cons.inj htaken
          rw [(Command.leaving_after_iff hstays).mpr hexits] at hleaving
          cases hleaving
      | cons other rest => exact ih hleaving (List.cons.inj htaken).2

theorem Starts.inBytes {before start : Session World} (hstarts : Starts before start)
    (hstatus : IsByte before.status) : start.InBytes where
  status := hstarts.status ▸ hstatus
  leaving code hcode := by
    rw [hstarts.leaving] at hcode
    cases hcode

theorem Starts.commands_output {before start : Session World} (hstarts : Starts before start) :
    start.output.commands = before.output.commands := by
  refine hstarts.sequel.grows.filterMap_events fun event hnotice => ?_
  cases event with
  | dispatched words => exact absurd hnotice id
  | _ => rfl

/-- A run that is left answers with the status of its session. -/
structure Answers (run : Shell World × Option Status) : Prop where
  leaving : run.2 = run.1.session.leaving
  status : ∀ code, run.2 = some code → run.1.session.status = code

theorem answers_runLine (platform : Platform World) {shell : Shell World}
    (hstays : shell.session.leaving = none) (line : Text) :
    Answers (shell.runLine platform line) := by
  have hcounted : shell.countLine.session.leaving = none := hstays
  obtain ⟨start, hstarts, hcourse, hanswer⟩ :=
    course_executeLine platform hcounted line true
  refine ⟨hanswer, fun code hleft => ?_⟩
  have hleaving := hanswer.symm.trans hleft
  obtain ⟨command, hmember, hexits⟩ := (hcourse.leaving_iff hstarts.leaving).mp hleaving
  obtain ⟨earlier, later, htaken⟩ := List.append_of_mem hmember
  obtain ⟨-, hfinal⟩ := hcourse.last_of_exits hstarts.leaving htaken hexits
  exact (congrArg Session.status hfinal).trans hexits.status_after

theorem answers_runLines (platform : Platform World) {shell : Shell World}
    (hstays : shell.session.leaving = none) (lines : List Text) :
    Answers (shell.runLines platform lines) := by
  apply runLines_keeps platform (motive := Answers)
  · intro shell line hanswers
    exact answers_runLine platform hanswers.leaving.symm line
  · exact ⟨hstays.symm, nofun⟩

theorem inBytes_runLines (platform : Platform World) {shell : Shell World}
    (hstays : shell.session.leaving = none) (hstatus : IsByte shell.session.status)
    (lines : List Text) :
    (shell.runLines platform lines).1.session.InBytes ∧
      ∀ command ∈ shell.commands platform lines, command.session.InBytes := by
  induction lines generalizing shell with
  | nil =>
      refine ⟨⟨hstatus, fun code hcode => ?_⟩, List.forall_mem_nil _⟩
      rw [runLines, hstays] at hcode
      cases hcode
  | cons line rest ih =>
      have hcounted : shell.countLine.session.leaving = none := hstays
      obtain ⟨start, hstarts, hcourse, hanswer⟩ :=
        course_executeLine platform hcounted line true
      obtain ⟨hcommands, hfinal⟩ := hcourse.keeps (fun _ => Command.inBytes_after)
        (hstarts.inBytes hstatus)
      rw [← runLine] at hanswer hfinal
      rw [runLines, commands]
      cases hrun : shell.runLine platform line with
      | mk after outcome =>
          rw [hrun] at hanswer hfinal
          cases outcome with
          | some code =>
              simp only [List.append_nil]
              exact ⟨hfinal, hcommands⟩
          | none =>
              obtain ⟨hrest, hcommandsRest⟩ := ih hanswer.symm hfinal.status
              exact ⟨hrest, List.forall_mem_append.mpr ⟨hcommands, hcommandsRest⟩⟩

/-- A line leaves the session exactly when an `exit` succeeds in it. -/
theorem leaves_iff_exits (platform : Platform World) {shell : Shell World}
    (hstays : shell.session.leaving = none) (hstatus : IsByte shell.session.status) :
    (∀ lines,
      (shell.runLines platform lines).1.session.InBytes ∧
        ∀ command ∈ shell.commands platform lines, command.session.InBytes ∧
          (command.ended platform).1.InBytes ∧ (command.after platform).InBytes) ∧
    (∀ lines before line, shell.runLines platform lines = (before, none) →
      let taken := before.countLine.lineCommands platform line true
      let run := before.runLine platform line
      run.1.session.output.commands =
          before.session.output.commands ++ taken.map Command.words ∧
        (∀ code, run.2 = some code ↔ ∃ command ∈ taken, command.Exits platform code) ∧
        (∀ code, run.2 = some code →
          run.1.session.leaving = some code ∧ run.1.session.status = code) ∧
        (run.2 = none → run.1.session.leaving = none) ∧
        ∀ earlier command later code, taken = earlier ++ command :: later →
          command.Exits platform code → later = []) ∧
    ∀ content, (shell.runReader platform content).2 =
      (shell.runReader platform content).1.session.status := by
  refine ⟨?_, ?_, ?_⟩
  · intro lines
    obtain ⟨hfinal, hcommands⟩ := inBytes_runLines platform hstays hstatus lines
    refine ⟨hfinal, ?_⟩
    intro command hmember
    have hbytes := hcommands command hmember
    exact ⟨hbytes, Command.inBytes_ended hbytes, Command.inBytes_after hbytes⟩
  · intro lines before line hlines taken run
    have hbefore := (answers_runLines platform hstays lines).leaving
    rw [hlines] at hbefore
    have hanswers := answers_runLine platform hbefore.symm line
    have hcounted : before.countLine.session.leaving = none := hbefore.symm
    obtain ⟨start, hstarts, hcourse, hanswer⟩ :=
      course_executeLine platform hcounted line true
    refine ⟨?_, ?_, ?_, ?_, ?_⟩
    · exact hstarts.commands_output ▸ hcourse.commands_output
    · intro code
      rw [← hcourse.leaving_iff hstarts.leaving, ← hanswer]
      rfl
    · intro code hleft
      exact ⟨hanswers.leaving.symm.trans hleft, hanswers.status code hleft⟩
    · intro hnone
      exact hanswers.leaving.symm.trans hnone
    · intro earlier command later code htaken hexits
      exact (hcourse.last_of_exits hstarts.leaving htaken hexits).1
  · intro content
    have hanswers := answers_runLines platform hstays
      ((Line.ofBytes content).map Utf8.decodeLossy)
    unfold runReader statusOf
    split
    · next after code hrun =>
      rw [hrun] at hanswers
      exact (hanswers.status code rfl).symm
    · rfl

theorem leaves_iff_exits_modulo :
    (onBareHost []).session.leaving = none ∧ IsByte (onBareHost []).session.status ∧
      ((onBareHost []).runLine (Host.platform 2) "exit 300").2 = some 44 ∧
        (∃ command ∈ (onBareHost []).countLine.lineCommands (Host.platform 2) "exit 300" true,
          command.Exits (Host.platform 2) 44) ∧
          ((onBareHost []).runLine (Host.platform 2) "exit 300").1.session.status = 44 := by
  have hstays : (onBareHost []).session.leaving = none := rfl
  have hstatus : IsByte (onBareHost []).session.status := isByte_zero
  obtain ⟨-, hline, -⟩ := leaves_iff_exits (Host.platform 2) hstays hstatus
  obtain ⟨-, hexits, hleft, -⟩ := hline [] _ "exit 300" rfl
  have hrun : ((onBareHost []).runLine (Host.platform 2) "exit 300").2 = some 44 := by
    have haccepted : Line.accepted? "exit 300" = some "exit 300".toList := by decide
    rw [runLine_of_plain (Host.platform 2) rfl haccepted (by decide) rfl
      (show _ = some 44 by decide +kernel)]
  exact ⟨hstays, hstatus, hrun, (hexits 44).mp hrun, (hleft 44 hrun).2⟩

end Shell

end CommandShell
