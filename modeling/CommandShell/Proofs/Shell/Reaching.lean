import CommandShell.Proofs.Shell.Commands
import CommandShell.Proofs.Shell.Recording

/-!
# What a session goes through

However a session is driven, it changes by its commands; between two of them the file of its history
may be written, lines are counted and something is shown, and neither a variable nor an alias
changes. So what commands keep, and what outlasts a write to a file, holds all along.
-/

namespace CommandShell

variable {World : Type} {platform : Platform World}

/-- Nothing is done to the world but that files are changed. -/
inductive Platform.Writes (platform : Platform World) (before : World) : World → Prop
  | none : platform.Writes before before
  | write {middle : World} (hmiddle : platform.Writes before middle) (path : Path)
      (change : Update) : platform.Writes before (platform.update middle path change).1

theorem Platform.Writes.trans {before middle after : World}
    (hfront : platform.Writes before middle) (hback : platform.Writes middle after) :
    platform.Writes before after := by
  induction hback with
  | none => exact hfront
  | write _ path change ih => exact .write ih path change

theorem Platform.writes_of_update {world after : World} {path : Path} {change : Update}
    {outcome : Except FileFault Unit}
    (hupdate : platform.update world path change = (after, outcome)) :
    platform.Writes world after := by
  have hafter : (platform.update world path change).1 = after := congrArg Prod.fst hupdate
  rw [← hafter]
  exact .write .none path change

/-! ### Writing the history -/

namespace History

theorem writes_save (world : World) (history : History) :
    platform.Writes world (history.save platform world).1 := by
  unfold save
  split
  · exact .none
  · split <;> next hupdate => exact Platform.writes_of_update hupdate

theorem writes_append (world : World) (history : History) :
    platform.Writes world (history.append platform world).1 := by
  unfold append
  split
  · exact writes_save world history
  · split
    · split <;> next hupdate => exact Platform.writes_of_update hupdate
    · exact .none

theorem writes_push (platform : Platform World) (world : World) (history : History) (line : Text) :
    platform.Writes world (history.push platform world line).1 := by
  unfold push
  split
  · exact .none
  · split
    · exact .none
    · exact writes_append world (history.record line)

theorem writes_finish (platform : Platform World) (world : World) (history : History) :
    platform.Writes world (history.finish platform world).1 := by
  unfold finish
  split
  · exact writes_save world history
  · exact .none

end History

/-! ### Between commands -/

/-- What may become of a session while no command runs. -/
structure Session.Between (platform : Platform World) (before after : Session World) : Prop where
  environment_eq : after.environment = before.environment
  aliases_eq : after.aliases = before.aliases
  writes : platform.Writes before.world after.world
  grows : before.output.Grows (·.words? = none) after.output

namespace Session

theorem Between.refl (session : Session World) : Between platform session session :=
  ⟨rfl, rfl, .none, .refl _⟩

theorem Between.trans {before middle after : Session World}
    (hfront : Between platform before middle) (hback : Between platform middle after) :
    Between platform before after where
  environment_eq := hback.environment_eq.trans hfront.environment_eq
  aliases_eq := hback.aliases_eq.trans hfront.aliases_eq
  writes := hfront.writes.trans hback.writes
  grows := hfront.grows.trans hback.grows

theorem between_emit (session : Session World) {event : Event} (hevent : event.words? = none) :
    Between platform session (session.emit event) :=
  ⟨rfl, rfl, .none, Output.grows_emit _ hevent⟩

theorem between_print (session : Session World) (text : Text) :
    Between platform session (session.print text).1 := by
  rw [print_eq]
  refine ⟨rfl, rfl, .none, (Output.grows_print _ text).mono fun event houtput => ?_⟩
  cases event with
  | dispatched words => exact absurd houtput id
  | _ => rfl

theorem between_line (session : Session World) (line : Nat) :
    Between platform session { session with line } :=
  ⟨rfl, rfl, .none, .refl _⟩

theorem between_settle (session : Session World) (command : Text)
    (outcome : Except Failure Status) :
    Between platform session (session.settle command outcome) := by
  cases outcome with
  | ok status => exact ⟨rfl, rfl, .none, .refl _⟩
  | error failure => exact ⟨rfl, rfl, .none, Output.grows_emit _ rfl⟩

theorem between_endInterrupt (session : Session World) :
    Between platform session session.endInterrupt := by
  unfold endInterrupt
  split
  · exact between_print session _
  · exact .refl session

theorem between_flush (session : Session World) : Between platform session session.flush := by
  unfold flush
  split
  · exact .refl session
  · exact between_emit session rfl

end Session

/-- A command has done its work before its outcome is told. -/
theorem Command.between_ended (command : Command World) :
    Session.Between platform (command.ended platform).1 (command.after platform) := by
  rw [after_eq]
  exact ((Session.between_settle _ _ _).trans (Session.between_endInterrupt _)).trans
    (Session.between_flush _)

namespace Shell

theorem between_remember (session : Session World) (text : Text) :
    Session.Between platform session (remember platform session text) := by
  have hwrites := History.writes_push platform session.world session.history text
  unfold remember
  split
  · next hpush =>
    rw [hpush] at hwrites
    exact ⟨rfl, rfl, hwrites, .refl _⟩
  · next hpush =>
    rw [hpush] at hwrites
    exact ⟨rfl, rfl, hwrites, Output.grows_emit _ rfl⟩

theorem between_finish (shell : Shell World) :
    Session.Between platform shell.session (shell.finish platform).session := by
  have hwrites :=
    History.writes_finish platform shell.session.world shell.session.history
  unfold finish
  simp only
  split
  · next hfinish =>
    rw [hfinish] at hwrites
    exact ⟨rfl, rfl, hwrites, .refl _⟩
  · next hfinish =>
    rw [hfinish] at hwrites
    exact ⟨rfl, rfl, hwrites, Output.grows_emit _ rfl⟩

/-! ### Reaching a session -/

/-- A session comes about by these commands and what lies between them. -/
inductive Reaches (platform : Platform World) (start : Session World) :
    List (Command World) → Session World → Prop
  | start : Reaches platform start [] start
  | pass {taken : List (Command World)} {before after : Session World}
      (hreaches : Reaches platform start taken before)
      (hbetween : Session.Between platform before after) : Reaches platform start taken after
  | run {taken : List (Command World)} (command : Command World)
      (hreaches : Reaches platform start taken command.session) :
      Reaches platform start (taken ++ [command]) (command.after platform)

namespace Reaches

variable {start middle final : Session World} {front back taken : List (Command World)}

theorem of_between (hbetween : Session.Between platform start final) :
    Reaches platform start [] final :=
  .pass .start hbetween

theorem trans (hfront : Reaches platform start front middle)
    (hback : Reaches platform middle back final) :
    Reaches platform start (front ++ back) final := by
  induction hback with
  | start => rwa [List.append_nil]
  | pass _ hbetween ih => exact .pass ih hbetween
  | run command _ ih =>
      rw [← List.append_assoc]
      exact .run command ih

theorem after_between (hbetween : Session.Between platform start middle)
    (hback : Reaches platform middle taken final) : Reaches platform start taken final :=
  (of_between hbetween).trans hback

/-- What lies between commands keeps it, and so does each of the commands. -/
theorem keeps {holds : Session World → Prop} (hreaches : Reaches platform start taken final)
    (hbetween : ∀ before after, Session.Between platform before after → holds before →
      holds after)
    (hcommands : ∀ command ∈ taken, holds command.session → holds (command.after platform))
    (hstart : holds start) : (∀ command ∈ taken, holds command.session) ∧ holds final := by
  induction hreaches with
  | start => exact ⟨List.forall_mem_nil _, hstart⟩
  | pass _ hpass ih =>
      obtain ⟨hmet, hholds⟩ := ih hcommands
      exact ⟨hmet, hbetween _ _ hpass hholds⟩
  | run command _ ih =>
      obtain ⟨hearlier, hlast⟩ := List.forall_mem_append.mp hcommands
      obtain ⟨hmet, hholds⟩ := ih hearlier
      exact ⟨List.forall_mem_append.mpr ⟨hmet, List.forall_mem_singleton.mpr hholds⟩,
        List.forall_mem_singleton.mp hlast hholds⟩

/-- No command is left out. -/
theorem commands_output (hreaches : Reaches platform start taken final) :
    final.output.commands = start.output.commands ++ taken.map Command.words := by
  induction hreaches with
  | start => exact (List.append_nil _).symm
  | pass _ hbetween ih =>
      rw [← ih]
      exact hbetween.grows.filterMap_events fun _ hevent => hevent
  | run command _ ih => rw [commands_after, ih, List.map_append, List.append_assoc]; rfl

end Reaches

/-! ### Lines -/

theorem reaches_drain (session : Session World) (pending : List Segment) :
    Reaches platform session (queueCommands platform session pending)
      (drain platform session pending).1.session := by
  have hsegment (session : Session World) (segment : Segment) :
      Reaches platform session (Command.ofSegment session segment)
        (session.runSegment platform segment) := by
    rcases Command.ofSegment_cases platform session segment with
      ⟨hnone, hrun⟩ | ⟨command, hcommand, rfl, hrun⟩
    · rw [hnone, hrun]
      exact .start
    · rw [hcommand, hrun]
      exact .run command .start
  induction session, pending using drain_induction platform with
  | nil session =>
      rw [drain_nil, queueCommands_nil]
      exact .start
  | skip session segment rest hpermits ih =>
      rwa [drain_cons_of_not_permits platform hpermits,
        queueCommands_cons_of_not_permits platform hpermits]
  | leave session segment rest code hpermits hleaving =>
      rw [drain_cons_of_permits platform hpermits, queueCommands_cons_of_permits platform hpermits]
      simp only [hleaving, List.append_nil]
      exact hsegment session _
  | stay session segment rest hpermits hleaving ih =>
      rw [drain_cons_of_permits platform hpermits, queueCommands_cons_of_permits platform hpermits]
      simp only [hleaving]
      exact (hsegment session _).trans ih

theorem reaches_executeLine (shell : Shell World) (line : Text) (recorded : Bool) :
    Reaches platform shell.session (shell.lineCommands platform line recorded)
      (shell.executeLine platform line recorded).1.session := by
  unfold lineCommands executeLine
  cases Line.accepted? line with
  | none => exact .start
  | some text =>
      cases recorded with
      | false => exact reaches_drain shell.session _
      | true => exact .after_between (between_remember _ text) (reaches_drain _ _)

theorem reaches_countLine (shell : Shell World) (line : Text) (recorded : Bool) :
    Reaches platform shell.session (shell.countLine.lineCommands platform line recorded)
      (shell.countLine.executeLine platform line recorded).1.session :=
  .after_between (Session.between_line _ _) (reaches_executeLine shell.countLine line recorded)

theorem reaches_runLines (shell : Shell World) (lines : List Text) :
    Reaches platform shell.session (shell.commands platform lines)
      (shell.runLines platform lines).1.session := by
  induction lines generalizing shell with
  | nil => exact .start
  | cons line rest ih =>
      have hline : Reaches platform shell.session (shell.countLine.lineCommands platform line true)
          (shell.runLine platform line).1.session := reaches_countLine shell line true
      rw [commands, runLines]
      generalize shell.runLine platform line = run at hline
      obtain ⟨after, _ | code⟩ := run
      · exact hline.trans (ih after)
      · simpa using hline

theorem reaches_runReader (platform : Platform World) (shell : Shell World) (content : Bytes) :
    Reaches platform shell.session
      (shell.commands platform ((Line.ofBytes content).map Utf8.decodeLossy))
      (shell.runReader platform content).1.session := by
  rw [runReader, fst_statusOf]
  exact reaches_runLines shell _

/-! ### Drivers -/

/-- A session comes about by some commands. -/
def Comes (platform : Platform World) (start final : Session World) : Prop :=
  ∃ taken, Reaches platform start taken final

section Comes

variable {start middle final : Session World}

theorem Comes.of_between (hbetween : Session.Between platform start final) :
    Comes platform start final :=
  ⟨[], .of_between hbetween⟩

theorem Comes.refl (session : Session World) : Comes platform session session :=
  ⟨[], .start⟩

theorem Comes.trans (hfront : Comes platform start middle) (hback : Comes platform middle final) :
    Comes platform start final := by
  obtain ⟨front, hfront⟩ := hfront
  obtain ⟨back, hback⟩ := hback
  exact ⟨front ++ back, hfront.trans hback⟩

end Comes

theorem comes_countLine (platform : Platform World) (shell : Shell World) (line : Text)
    (recorded : Bool) :
    Comes platform shell.session
      (shell.countLine.executeLine platform line recorded).1.session :=
  ⟨_, reaches_countLine shell line recorded⟩

theorem comes_runFile (file : OpenFile World) (limit : Nat) (shell : Shell World)
    (cursor : Line.Cursor) :
    Comes platform shell.session (shell.runFile platform file limit cursor).1.session := by
  fun_induction runFile platform file limit shell cursor with
  | case1 shell cursor fault hnext => exact .of_between (Session.between_emit _ rfl)
  | case2 shell cursor hnext => exact .refl _
  | case3 shell cursor line rest hnext after code hrun =>
      have hline := comes_countLine platform shell (Utf8.decodeLossy line) true
      rw [← runLine, hrun] at hline
      exact hline
  | case4 shell cursor line rest hnext after hrun ih =>
      have hline := comes_countLine platform shell (Utf8.decodeLossy line) true
      rw [← runLine, hrun] at hline
      exact hline.trans ih

theorem comes_runScript (shell : Shell World) (path : Path) :
    Comes platform shell.session (shell.runScript platform path).1.session := by
  cases hopen : platform.openFile shell.session.world path with
  | error fault =>
      simp only [runScript, hopen]
      exact .of_between (Session.between_emit _ rfl)
  | ok file =>
      simp only [runScript, hopen, fst_statusOf]
      exact comes_runFile file _ shell .start

theorem comes_sourceLines (shell : Shell World) (lines : List Text) :
    Comes platform shell.session (shell.sourceLines platform lines).1.session := by
  induction lines generalizing shell with
  | nil => exact .refl _
  | cons line rest ih =>
      have hline := comes_countLine platform shell line false
      rw [sourceLines]
      generalize shell.countLine.executeLine platform line false = run at hline
      obtain ⟨after, _ | code⟩ := run
      · exact hline.trans (ih after)
      · exact hline

theorem comes_sourceText (shell : Shell World) (content : Text) :
    Comes platform shell.session (shell.sourceText platform content).1.session := by
  have hstart : Comes platform shell.session (shell.setLine 0).session :=
    .of_between (Session.between_line _ _)
  exact (hstart.trans (comes_sourceLines _ _)).trans (.of_between (Session.between_line _ _))

theorem comes_source (shell : Shell World) (path : Path) :
    Comes platform shell.session (shell.source platform path).1.session := by
  unfold source
  split
  · split
    · exact comes_sourceText shell _
    · exact .of_between (Session.between_emit _ rfl)
  · split
    · exact .refl _
    · exact .of_between (Session.between_emit _ rfl)

theorem comes_ask (platform : Platform World) (shell : Shell World) (prompt : Option Text) :
    Comes platform shell.session (shell.ask prompt).session := by
  cases prompt with
  | none => exact .refl _
  | some prompt => exact .of_between (Session.between_emit _ rfl)

theorem comes_runTyped (shell : Shell World) (prompt : Option Text) (lines : List Bytes) :
    Comes platform shell.session (shell.runTyped platform prompt lines).1.session := by
  induction lines generalizing shell with
  | nil => exact (comes_ask platform shell prompt).trans (.of_between (Session.between_print _ _))
  | cons line rest ih =>
      have hask := comes_ask platform shell prompt
      rw [runTyped]
      split
      · exact hask.trans (.of_between (Session.between_emit _ rfl))
      · next text _ =>
        have hline :=
          hask.trans (comes_countLine platform (shell.ask prompt) (Line.erased text) true)
        rw [← runLine] at hline
        generalize (shell.ask prompt).runLine platform (Line.erased text) = run at hline
        obtain ⟨after, _ | code⟩ := run
        · exact hline.trans (ih after)
        · exact hline

/-- A way to drive a session. -/
inductive Drive
  | command (line : Text)
  | reader (content : Bytes)
  | script (path : Path)
  | startup (path : Path)
  | editor (prompt : Option Text) (content : Bytes)
  | finish

def drive (platform : Platform World) (shell : Shell World) : Drive → Shell World
  | .command line => (shell.runCommand platform line).1
  | .reader content => (shell.runReader platform content).1
  | .script path => (shell.runScript platform path).1
  | .startup path => (shell.source platform path).1
  | .editor prompt content => (shell.interact platform prompt content).1
  | .finish => shell.finish platform

theorem comes_drive (shell : Shell World) (way : Drive) :
    Comes platform shell.session (shell.drive platform way).session := by
  cases way with
  | command line =>
      rw [drive, runCommand, fst_statusOf]
      exact comes_countLine platform shell line true
  | reader content => exact ⟨_, reaches_runReader platform shell content⟩
  | script path => exact comes_runScript shell path
  | startup path => exact comes_source shell path
  | editor prompt content =>
      rw [drive, interact, fst_statusOf]
      exact comes_runTyped shell prompt _
  | finish => exact .of_between (between_finish shell)

/-- However a session is driven time and again, it comes about by commands. -/
theorem comes_drives (platform : Platform World) (shell : Shell World) (ways : List Drive) :
    Comes platform shell.session (ways.foldl (drive platform) shell).session := by
  induction ways generalizing shell with
  | nil => exact .refl _
  | cons way rest ih => exact (comes_drive shell way).trans (ih _)

end Shell

end CommandShell
