import CommandShell.Proofs.Builtin.Operands
import CommandShell.Proofs.Shell.Leaving

/-!
# An `exit` with an operand

An `exit` that is given a number leaves the session with it, reduced to a byte; zeros in front of
the number and one plus sign make no difference. Given anything else, a number out of range
included, it is reported and the session goes on.
-/

namespace CommandShell

variable {World : Type} {platform : Platform World}

namespace Command

variable {command : Command World} {operand : Text}

theorem runSegment_of_ofSegment {segment : Segment}
    (hsegment : ofSegment command.session segment = [command]) :
    command.session.runSegment platform segment = command.after platform := by
  rcases ofSegment_cases platform command.session segment with
    ⟨hnone, -⟩ | ⟨other, hother, -, hrun⟩
  · rw [hsegment] at hnone
    cases hnone
  · rw [hsegment] at hother
    obtain rfl := List.singleton_inj.mp hother
    exact hrun

theorem request_exit (hfree : operand ≠ "--help".toList) :
    Builtin.exit.request [operand] = .ok (.exit (some operand)) := by
  have htakes : Builtin.exit.Takes [operand].length := Nat.le_refl 1
  exact Builtin.request_of_room (Builtin.room_of_takes htakes) (Builtin.missing_of_takes htakes)
    fun hhead => hfree (Option.some.inj hhead)

theorem find?_exit : Builtin.find? "exit".toList = some .exit := by
  decide

theorem ended_exit (hwords : command.words = ["exit".toList, operand])
    (hfree : operand ≠ "--help".toList) :
    command.ended platform =
      Builtin.leave (command.session.emit (.dispatched command.words)) (some operand) := by
  obtain ⟨hname, harguments⟩ := List.cons.inj hwords
  rw [ended, hname, harguments, Session.dispatch, find?_exit]
  simp only [Builtin.run, request_exit hfree, Builtin.perform]

/-- The session is left with the status that the operand stands for. -/
theorem exits_iff (hwords : command.words = ["exit".toList, operand])
    (hfree : operand ≠ "--help".toList) {code : Status} :
    command.Exits platform code ↔ Builtin.exitStatus? operand = some code := by
  obtain ⟨hname, harguments⟩ := List.cons.inj hwords
  have hnamed : Builtin.find? command.name = some .exit := hname ▸ find?_exit
  have hasked : Builtin.exit.request command.arguments = .ok (.exit (some operand)) :=
    harguments ▸ request_exit hfree
  have hsucceeded : (command.ended platform).2 = .ok code ↔
      Builtin.exitStatus? operand = some code := by
    rw [ended_exit hwords hfree, Builtin.leave]
    cases Builtin.exitStatus? operand <;> simp
  exact ⟨fun hexits => hsucceeded.mp hexits.succeeded,
    fun hcode => ⟨hnamed, ⟨_, hasked⟩, hsucceeded.mpr hcode⟩⟩

theorem leaving_after_exit_iff (hwords : command.words = ["exit".toList, operand])
    (hfree : operand ≠ "--help".toList) (hstays : command.session.leaving = none)
    {code : Status} :
    (command.after platform).leaving = some code ↔
      ∃ number, Decimal.Numeral operand number ∧ number ≤ 2 ^ 31 - 1 ∧
        code = ((number % 256 : Nat) : Int) := by
  have hbound : ∀ number, number < Decimal.statusBound ↔ number ≤ 2 ^ 31 - 1 := fun number => by
    unfold Decimal.statusBound
    omega
  simp only [leaving_after_iff hstays, exits_iff hwords hfree, Builtin.exitStatus?_eq_some_iff,
    hbound]

/-- An operand that stands for no status is reported. -/
theorem after_of_exitStatus?_eq_none (hwords : command.words = ["exit".toList, operand])
    (hfree : operand ≠ "--help".toList) (hnone : Builtin.exitStatus? operand = none) :
    (command.after platform).status = 2 ∧
      (command.after platform).output.reports = command.session.output.reports ++
        [command.session.reportLine command.name (.illegalNumber operand)] := by
  have hended : command.ended platform =
      (command.session.emit (.dispatched command.words), .error (.illegalNumber operand)) := by
    rw [ended_exit hwords hfree]
    simp only [Builtin.leave, hnone]
  have hunreported : (command.session.emit (.dispatched command.words)).output.reports =
      command.session.output.reports :=
    List.filterMap_append.trans (List.append_nil _)
  constructor
  · rw [status_after, hended]
    rfl
  · rw [after_eq, hended, Session.reports_failed, hunreported]
    rfl

/-- An `exit` with an operand leaves the session exactly when the operand is a number of at most
31 bits, and nothing that is queued is run any more then. Otherwise it is reported, once. -/
theorem after_exit (hwords : command.words = ["exit".toList, operand])
    (hfree : operand ≠ "--help".toList) (hstays : command.session.leaving = none) :
    let session := command.session
    let after := command.after platform
    (∀ code, after.leaving = some code ↔
      ∃ number, Decimal.Numeral operand number ∧ number ≤ 2 ^ 31 - 1 ∧
        code = ((number % 256 : Nat) : Int)) ∧
    (∀ code, after.leaving = some code → after.status = code ∧
      ∀ segment rest, segment.operator.permits session.status = true →
        ofSegment session (Shell.resolve session.aliases segment).1 = [command] →
          Shell.drain platform session (segment :: rest) = ({ session := after }, some code)) ∧
    (after.leaving = none → after.status = 2 ∧
      after.output.reports = session.output.reports ++
        [session.program ++ ": " ++ Decimal.ofNat session.line ++ ": " ++
          ("exit: Illegal number: " ++ operand)]) := by
  intro session after
  refine ⟨fun code => leaving_after_exit_iff hwords hfree hstays, ?_, ?_⟩
  · intro code hcode
    refine ⟨((leaving_after_iff hstays).mp hcode).status_after, ?_⟩
    intro segment rest hpermits hsegment
    rw [Shell.drain_cons_of_permits platform hpermits, runSegment_of_ofSegment hsegment]
    simp only [hcode, after]
  · intro hleaving
    have hnone : Builtin.exitStatus? operand = none := by
      refine Option.eq_none_iff_forall_ne_some.mpr fun code hcode => ?_
      have hleft : after.leaving = some code :=
        (leaving_after_iff hstays).mpr ((exits_iff hwords hfree).mpr hcode)
      rw [hleaving] at hleft
      cases hleft
    exact after_of_exitStatus?_eq_none hwords hfree hnone

theorem after_exit_plus_zeros :
    let command : Command Host :=
      ⟨(Shell.onBareHost []).session, "exit", ["+0000000300"]⟩
    command.words = ["exit".toList, "+0000000300".toList] ∧
      "+0000000300".toList ≠ "--help".toList ∧ command.session.leaving = none ∧
        (command.after (Host.platform 2)).leaving = some 44 ∧
          (command.after (Host.platform 2)).status = 44 := by
  intro command
  have hwords : command.words = ["exit".toList, "+0000000300".toList] := rfl
  have hfree : "+0000000300".toList ≠ "--help".toList := by decide
  have hstays : command.session.leaving = none := rfl
  have hdigits : "0000000300".toList.all Char.isDigit = true := by decide
  have hnumeral : Decimal.Numeral "+0000000300".toList 300 :=
    ⟨"0000000300".toList, .inr rfl, by decide, List.all_eq_true.mp hdigits, by decide⟩
  obtain ⟨hleaves, hleft, -⟩ := after_exit hwords hfree hstays
  have hcode : (command.after (Host.platform 2)).leaving = some 44 :=
    (hleaves 44).mpr ⟨300, hnumeral, by decide, rfl⟩
  exact ⟨hwords, hfree, hstays, hcode, (hleft 44 hcode).1⟩

end Command

end CommandShell
