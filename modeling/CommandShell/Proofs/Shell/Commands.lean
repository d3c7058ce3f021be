import CommandShell.Proofs.Session.Effect
import CommandShell.Proofs.Shell.Queue
import CommandShell.Proofs.Variable.Tokens

/-!
# The commands of a run

While a line is run, its session changes by the commands that are dispatched, one after the other,
and by nothing else. A command is taken here together with the session that it meets. What one
command keeps is so kept by a whole line, by induction on its course.
-/

namespace CommandShell

variable {World : Type} (platform : Platform World)

def Event.words? : Event → Option (List Text)
  | .dispatched words => some words
  | _ => none

def Event.report? : Event → Option Text
  | .reported line => some line
  | _ => none

namespace Output

/-- The commands that were dispatched, each as its words. -/
def commands (output : Output) : List (List Text) :=
  output.events.filterMap Event.words?

def reports (output : Output) : List Text :=
  output.events.filterMap Event.report?

theorem Grows.filterMap_events {Shown : Type} {kind : Event → Prop} {before after : Output}
    (hgrows : before.Grows kind after) {view : Event → Option Shown}
    (hnone : ∀ event, kind event → view event = none) :
    after.events.filterMap view = before.events.filterMap view := by
  obtain ⟨made, hevents, hmade⟩ := hgrows
  have hmadeNone : made.filterMap view = [] :=
    List.filterMap_eq_nil_iff.mpr fun event hmember => hnone event (hmade event hmember)
  rw [hevents, List.filterMap_append, hmadeNone, List.append_nil]

end Output

theorem Session.expandedWords_of_not_mem (session : Session World) {text : Text}
    (hnone : '$' ∉ text) : session.expandedWords text = Text.words text := by
  refine (List.map_congr_left fun word hword => ?_).trans (List.map_id _)
  refine Variable.Context.expand_of_not_mem _ fun hdollar => hnone ?_
  exact Text.mem_of_mem_pieces (List.mem_of_mem_filter hword) _ hdollar

/-- A command at the moment when it is dispatched. -/
structure Command (World : Type) where
  session : Session World
  name : Text
  arguments : List Text

namespace Command

variable (command : Command World)

def words : List Text :=
  command.name :: command.arguments

/-- The session when the command has ended, and its outcome, of which the session does not know
yet. -/
def ended : Session World × Except Failure Status :=
  (command.session.emit (.dispatched command.words)).dispatch platform command.name
    command.arguments

def after : Session World :=
  command.session.runWords platform command.words

/-- The command that a segment comes to, when it has words at all. -/
def ofSegment (session : Session World) (segment : Segment) : List (Command World) :=
  match session.expandedWords segment.text with
  | [] => []
  | name :: arguments => [{ session, name, arguments }]

theorem after_eq :
    command.after platform =
      ((command.ended platform).1.settle command.name
        (command.ended platform).2).endInterrupt.flush :=
  rfl

theorem ofSegment_of_expandedWords {session : Session World} {segment : Segment} {name : Text}
    {arguments : List Text} (hwords : session.expandedWords segment.text = name :: arguments) :
    ofSegment session segment = [{ session, name, arguments }] := by
  rw [ofSegment, hwords]

theorem ofSegment_cases (session : Session World) (segment : Segment) :
    ofSegment session segment = [] ∧ session.runSegment platform segment = session ∨
      ∃ command, ofSegment session segment = [command] ∧ command.session = session ∧
        session.runSegment platform segment = command.after platform := by
  unfold ofSegment Session.runSegment
  cases hwords : session.expandedWords segment.text with
  | nil => exact .inl ⟨rfl, rfl⟩
  | cons name arguments => exact .inr ⟨_, rfl, rfl, rfl⟩

/-! ### What a command keeps and what it lets be seen -/

/-- The events behind a dispatch: a report names the program and the line, and nothing else is
dispatched. -/
def Lets : Event → Prop
  | .dispatched _ => False
  | .reported line => ∃ failure, line = command.session.reportLine command.name failure
  | _ => True

end Command

namespace Session

/-- What stands in front of every report, and the events added. -/
structure Sequel (kind : Event → Prop) (before after : Session World) : Prop where
  program : after.program = before.program
  line : after.line = before.line
  grows : before.output.Grows kind after.output

variable {kind : Event → Prop} {before middle after : Session World}

theorem Sequel.refl (session : Session World) : Sequel kind session session :=
  ⟨rfl, rfl, .refl _⟩

theorem Sequel.trans (hfront : Sequel kind before middle) (hback : Sequel kind middle after) :
    Sequel kind before after where
  program := hback.program.trans hfront.program
  line := hback.line.trans hfront.line
  grows := hfront.grows.trans hback.grows

theorem Sequel.mono {wider : Event → Prop} (hsequel : Sequel kind before after)
    (hkind : ∀ event, kind event → wider event) : Sequel wider before after where
  program := hsequel.program
  line := hsequel.line
  grows := hsequel.grows.mono hkind

theorem sequel_emit (session : Session World) {event : Event} (hkind : kind event) :
    Sequel kind session (session.emit event) :=
  ⟨rfl, rfl, Output.grows_emit _ hkind⟩

variable {platform}

theorem Effect.sequel {session : Session World} {name : Text} {arguments : List Text}
    {result : Session World × Except Failure Status}
    (heffect : Effect platform session name arguments result) :
    Sequel Event.IsOutput session result.1 := by
  cases heffect with
  | refuse failure => exact .refl session
  | perform hname hrequest heffect =>
      cases heffect with
      | refuse => exact .refl session
      | tell _ hgrows => exact ⟨rfl, rfl, hgrows⟩
      | leave => exact ⟨rfl, rfl, .refl _⟩
      | move _ _ _ hgrows => exact ⟨rfl, rfl, hgrows⟩
      | bind => exact ⟨rfl, rfl, .refl _⟩
      | unbind => exact ⟨rfl, rfl, .refl _⟩
      | define _ _ hgrows => exact ⟨rfl, rfl, hgrows⟩
  | child _ _ _ hgrows => exact ⟨rfl, rfl, hgrows⟩

theorem sequel_endInterrupt (session : Session World) :
    Sequel Event.IsOutput session session.endInterrupt := by
  unfold endInterrupt
  split
  · rw [print_eq]
    exact ⟨rfl, rfl, Output.grows_print _ _⟩
  · exact .refl session

theorem sequel_flush (session : Session World) (hnoted : ∀ notice, kind (.noted notice)) :
    Sequel kind session session.flush := by
  unfold flush
  split
  · exact .refl session
  · exact sequel_emit session (hnoted _)

end Session

namespace Command

theorem lets_of_isOutput (command : Command World) {event : Event} (houtput : event.IsOutput) :
    command.Lets event := by
  cases event <;> trivial

theorem effect_ended (platform : Platform World) (command : Command World) :
    Session.Effect platform (command.session.emit (.dispatched command.words)) command.name
      command.arguments (command.ended platform) :=
  Session.effect_dispatch platform _ command.name command.arguments

theorem sequel_ended (command : Command World) :
    Session.Sequel command.Lets (command.session.emit (.dispatched command.words))
      (command.ended platform).1 :=
  (command.effect_ended platform).sequel.mono fun _ => command.lets_of_isOutput

theorem sequel_after (command : Command World) :
    Session.Sequel command.Lets (command.session.emit (.dispatched command.words))
      (command.after platform) := by
  have hended := command.sequel_ended platform
  have hsettle : Session.Sequel command.Lets (command.ended platform).1
      ((command.ended platform).1.settle command.name (command.ended platform).2) := by
    cases hfailure : (command.ended platform).2 with
    | ok status => exact ⟨rfl, rfl, .refl _⟩
    | error failure =>
        refine ⟨rfl, rfl, Output.grows_emit _ ⟨failure, ?_⟩⟩
        rw [Session.reportLine, hended.program, hended.line]
        rfl
  rw [after_eq]
  exact ((hended.trans hsettle).trans
    ((Session.sequel_endInterrupt _).mono fun _ => command.lets_of_isOutput)).trans
      (Session.sequel_flush _ fun _ => trivial)

end Command

/-! ### Lines -/

namespace Shell

/-- The commands that a queue comes to. -/
def queueCommands (session : Session World) (pending : List Segment) : List (Command World) :=
  match pending with
  | [] => []
  | segment :: rest =>
    if segment.operator.permits session.status then
      let next := advance platform session segment rest
      Command.ofSegment session (resolve session.aliases segment).1 ++
        match next.session.leaving with
        | some _ => []
        | none => queueCommands next.session next.pending
    else
      queueCommands session rest
termination_by measure pending
decreasing_by
  · exact measure_advance_lt platform session segment rest
  · exact measure_lt_cons segment rest

def lineCommands (shell : Shell World) (line : Text) (recorded : Bool) : List (Command World) :=
  match Line.accepted? line with
  | none => []
  | some text =>
    let start := if recorded then remember platform shell.session text else shell.session
    queueCommands platform start (Chain.split text)

def commands (shell : Shell World) : List Text → List (Command World)
  | [] => []
  | line :: rest =>
    shell.countLine.lineCommands platform line true ++
      match shell.runLine platform line with
      | (_, some _) => []
      | (shell, none) => shell.commands rest

theorem commands_singleton (shell : Shell World) (line : Text) :
    shell.commands platform [line] = shell.countLine.lineCommands platform line true := by
  rw [commands]
  split <;> exact List.append_nil _

theorem queueCommands_nil (session : Session World) : queueCommands platform session [] = [] := by
  rw [queueCommands]

theorem queueCommands_cons_of_not_permits {session : Session World} {segment : Segment}
    (hpermits : ¬ segment.operator.permits session.status = true) (rest : List Segment) :
    queueCommands platform session (segment :: rest) = queueCommands platform session rest := by
  rw [queueCommands, if_neg hpermits]

theorem queueCommands_cons_of_permits {session : Session World} {segment : Segment}
    (hpermits : segment.operator.permits session.status = true) (rest : List Segment) :
    queueCommands platform session (segment :: rest) =
      let after := session.runSegment platform (resolve session.aliases segment).1
      Command.ofSegment session (resolve session.aliases segment).1 ++
        match after.leaving with
        | some _ => []
        | none => queueCommands platform after ((resolve session.aliases segment).2 ++ rest) := by
  rw [queueCommands, if_pos hpermits]
  rfl

theorem queueCommands_split_of_plain (session : Session World) {text : Text}
    (hplain : Chain.Plain text)
    (hname : session.aliases.get? (Alias.firstWord text).1 = none) :
    queueCommands platform session (Chain.split text) =
      Command.ofSegment session { text, operator := .start } := by
  rw [split_of_plain hplain, queueCommands_cons_of_permits platform rfl,
    resolve_of_get?_eq_none hname]
  simp only [List.nil_append, queueCommands_nil]
  split <;> exact List.append_nil _

theorem lineCommands_of_plain (shell : Shell World) {line text : Text}
    (haccepted : Line.accepted? line = some text) (hplain : Chain.Plain text)
    (hname : shell.session.aliases.get? (Alias.firstWord text).1 = none) (recorded : Bool) :
    shell.lineCommands platform line recorded =
      Command.ofSegment (if recorded then remember platform shell.session text else shell.session)
        { text, operator := .start } := by
  rw [lineCommands, haccepted]
  refine queueCommands_split_of_plain platform _ hplain ?_
  split
  · rwa [aliases_remember]
  · exact hname

theorem commands_of_plain (shell : Shell World) {line text name : Text} {arguments : List Text}
    (haccepted : Line.accepted? line = some text) (hplain : Chain.Plain text)
    (hname : shell.session.aliases.get? (Alias.firstWord text).1 = none) (hnone : '$' ∉ text)
    (hwords : Text.words text = name :: arguments) :
    shell.commands platform [line] =
      [{ session := remember platform shell.countLine.session text, name, arguments }] := by
  rw [commands_singleton, lineCommands_of_plain platform shell.countLine haccepted hplain hname,
    if_pos rfl]
  exact Command.ofSegment_of_expandedWords
    ((Session.expandedWords_of_not_mem _ hnone).trans hwords)

/-- The course of a session: each command meets what the one before it left, and the first that
sets the session to be left is the last. -/
inductive Course : Session World → List (Command World) → Session World → Prop
  | done (session : Session World) : Course session [] session
  | leave (command : Command World) {code : Status}
      (hleaving : (command.after platform).leaving = some code) :
      Course command.session [command] (command.after platform)
  | stay (command : Command World) {commands : List (Command World)} {final : Session World}
      (hleaving : (command.after platform).leaving = none)
      (hrest : Course (command.after platform) commands final) :
      Course command.session (command :: commands) final

theorem course_drain {session : Session World} (hleaving : session.leaving = none)
    (pending : List Segment) :
    Course platform session (queueCommands platform session pending)
        (drain platform session pending).1.session ∧
      (drain platform session pending).2 = (drain platform session pending).1.session.leaving := by
  induction session, pending using drain_induction platform with
  | nil session =>
      rw [drain_nil, queueCommands_nil]
      exact ⟨.done session, hleaving.symm⟩
  | skip session segment rest hpermits ih =>
      rw [drain_cons_of_not_permits platform hpermits,
        queueCommands_cons_of_not_permits platform hpermits]
      exact ih hleaving
  | leave session segment rest code hpermits hleft =>
      rw [drain_cons_of_permits platform hpermits, queueCommands_cons_of_permits platform hpermits]
      simp only [hleft, List.append_nil]
      refine ⟨?_, trivial⟩
      rcases Command.ofSegment_cases platform session (resolve session.aliases segment).1 with
        ⟨-, hrun⟩ | ⟨command, hcommand, rfl, hrun⟩
      · -- A segment without words leaves the session as it is, and that is not to be left.
        rw [hrun, hleaving] at hleft
        cases hleft
      · rw [hcommand, hrun]
        exact .leave command (hrun ▸ hleft)
  | stay session segment rest hpermits hstays ih =>
      rw [drain_cons_of_permits platform hpermits, queueCommands_cons_of_permits platform hpermits]
      simp only [hstays]
      obtain ⟨hcourse, hanswer⟩ := ih hstays
      refine ⟨?_, hanswer⟩
      rcases Command.ofSegment_cases platform session (resolve session.aliases segment).1 with
        ⟨hnone, hrun⟩ | ⟨command, hcommand, rfl, hrun⟩
      · rw [hnone, List.nil_append]
        rwa [hrun] at hcourse ⊢
      · rw [hcommand, List.singleton_append]
        rw [hrun] at hstays hcourse ⊢
        exact .stay command hstays hcourse

def IsNotice : Event → Prop
  | .noted _ => True
  | _ => False

theorem remember_cases (session : Session World) (text : Text) :
    ∃ world history output, session.output.Grows IsNotice output ∧
      remember platform session text = { session with world, history, output } := by
  unfold remember
  split
  · next world history _ => exact ⟨world, history, session.output, .refl _, rfl⟩
  · next world history fault _ =>
    refine ⟨world, history, session.output.emit (.noted (.historyFailed fault)), ?_, rfl⟩
    exact Output.grows_emit _ trivial

/-- Where the course of a line starts: recording it changes neither the status nor whether the
session is left. -/
structure Starts (before start : Session World) : Prop where
  sequel : Session.Sequel IsNotice before start
  status : start.status = before.status
  leaving : start.leaving = none

/-- A line that may be recorded meets the session as it was, but for the record. -/
theorem exists_start_eq (session : Session World) (text : Text) (recorded : Bool) :
    ∃ world history output, session.output.Grows IsNotice output ∧
      (if recorded then remember platform session text else session) =
        { session with world, history, output } := by
  cases recorded with
  | false => exact ⟨session.world, session.history, session.output, .refl _, rfl⟩
  | true => exact remember_cases platform session text

theorem starts_remember {session : Session World} (hleaving : session.leaving = none)
    (text : Text) (recorded : Bool) :
    Starts session (if recorded then remember platform session text else session) := by
  obtain ⟨world, history, output, hgrows, hstart⟩ :=
    exists_start_eq platform session text recorded
  rw [hstart]
  exact ⟨⟨rfl, rfl, hgrows⟩, rfl, hleaving⟩

theorem course_executeLine {shell : Shell World} (hleaving : shell.session.leaving = none)
    (line : Text) (recorded : Bool) :
    ∃ start, Starts shell.session start ∧
      Course platform start (shell.lineCommands platform line recorded)
        (shell.executeLine platform line recorded).1.session ∧
      (shell.executeLine platform line recorded).2 =
        (shell.executeLine platform line recorded).1.session.leaving := by
  unfold lineCommands executeLine
  cases Line.accepted? line with
  | none => exact ⟨shell.session, ⟨.refl _, rfl, hleaving⟩, .done _, hleaving.symm⟩
  | some text =>
      have hstarts := starts_remember platform hleaving text recorded
      exact ⟨_, hstarts, course_drain platform hstarts.leaving (Chain.split text)⟩

theorem leaving_runLine {shell : Shell World} (hleaving : shell.session.leaving = none)
    (line : Text) :
    (shell.runLine platform line).2 = (shell.runLine platform line).1.session.leaving := by
  have hcounted : shell.countLine.session.leaving = none := hleaving
  obtain ⟨-, -, -, hanswer⟩ := course_executeLine platform hcounted line true
  exact hanswer

theorem leaving_runLines {shell : Shell World} (hleaving : shell.session.leaving = none)
    (lines : List Text) :
    (shell.runLines platform lines).2 = (shell.runLines platform lines).1.session.leaving := by
  apply runLines_keeps platform (motive := fun run => run.2 = run.1.session.leaving)
  · intro shell line hanswer
    exact leaving_runLine platform hanswer.symm line
  · exact hleaving.symm

variable {platform} {start final : Session World} {taken : List (Command World)}

theorem Course.keeps {holds : Session World → Prop}
    (hkeeps : ∀ command : Command World, holds command.session → holds (command.after platform))
    (hcourse : Course platform start taken final) (hstart : holds start) :
    (∀ command ∈ taken, holds command.session) ∧ holds final := by
  induction hcourse with
  | done session => exact ⟨List.forall_mem_nil _, hstart⟩
  | leave command => exact ⟨List.forall_mem_singleton.mpr hstart, hkeeps command hstart⟩
  | stay command hleaving hrest ih =>
      obtain ⟨hcommands, hfinal⟩ := ih (hkeeps command hstart)
      exact ⟨List.forall_mem_cons.mpr ⟨hstart, hcommands⟩, hfinal⟩

theorem commands_after (command : Command World) :
    (command.after platform).output.commands =
      command.session.output.commands ++ [command.words] := by
  have hview : ∀ event, command.Lets event → event.words? = none := by
    intro event hlets
    cases event with
    | dispatched words => exact absurd hlets id
    | _ => rfl
  rw [Output.commands, (command.sequel_after platform).grows.filterMap_events hview]
  exact List.filterMap_append

/-- A course leaves out no command that is dispatched. -/
theorem Course.commands_output (hcourse : Course platform start taken final) :
    final.output.commands = start.output.commands ++ taken.map Command.words := by
  induction hcourse with
  | done session => exact (List.append_nil _).symm
  | leave command => exact commands_after command
  | stay command hleaving hrest ih =>
      rw [ih, commands_after, List.append_assoc, List.map_cons, List.singleton_append]

end Shell

/-! ### A command that succeeds -/

/-- Where nothing is printed, what was printed stays. -/
theorem Output.Grows.printed {kind : Event → Prop} {before after : Output}
    (hgrows : before.Grows kind after) (hsilent : ∀ bytes, ¬ kind (.printed bytes)) :
    after.printed = before.printed := by
  obtain ⟨made, hevents, hmade⟩ := hgrows
  have hnone : ({ events := made } : Output).printed = [] := by
    refine List.flatMap_eq_nil_iff.mpr fun event hmember => ?_
    cases event with
    | printed bytes => exact absurd (hmade _ hmember) (hsilent bytes)
    | _ => rfl
  have happend : after.printed = before.printed ++ ({ events := made } : Output).printed := by
    rw [Output.printed, hevents, List.flatMap_append]
    rfl
  rw [happend, hnone, List.append_nil]

/-- No interrupt is told, and a refused flush is noted. -/
theorem Session.exists_finished_eq (session : Session World)
    (hstatus : (session.status == interrupted) = false) :
    ∃ output, session.output.Grows Shell.IsNotice output ∧ output.room = session.output.room ∧
      session.endInterrupt.flush = { session with output } := by
  simp only [endInterrupt, hstatus, Bool.and_false, Bool.false_eq_true, if_false, flush]
  split
  · exact ⟨session.output, .refl _, rfl, rfl⟩
  · next fault _ =>
    exact ⟨session.output.emit (.noted (.cannotFlush fault)), Output.grows_emit _ trivial, rfl, rfl⟩

/-- A success is told by the status alone. -/
theorem Session.exists_settled_eq (session : Session World) (name : Text) :
    ∃ output, session.output.Grows Shell.IsNotice output ∧ output.room = session.output.room ∧
      (session.settle name (.ok 0)).endInterrupt.flush = { session with status := 0, output } :=
  exists_finished_eq (session.settle name (.ok 0)) rfl

theorem Output.Grows.reports {before after : Output}
    (hgrows : before.Grows Shell.IsNotice after) : after.reports = before.reports := by
  refine hgrows.filterMap_events fun event hnotice => ?_
  cases event with
  | reported line => exact absurd hnotice id
  | _ => rfl

/-- A failure is told in one report. -/
theorem Session.reports_failed (session : Session World) (name : Text) (failure : Failure) :
    (session.settle name (.error failure)).endInterrupt.flush.output.reports =
      session.output.reports ++ [session.reportLine name failure] := by
  have hstatus : (failure.status == interrupted) = false := by cases failure <;> rfl
  obtain ⟨output, hnoted, -, hfinished⟩ :=
    exists_finished_eq (session.settle name (.error failure)) hstatus
  rw [hfinished]
  exact hnoted.reports.trans List.filterMap_append

end CommandShell
