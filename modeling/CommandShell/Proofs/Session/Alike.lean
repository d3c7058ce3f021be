import CommandShell.Proofs.Shell.Commands

/-!
# Sessions that differ in their history

Two sessions may differ in their histories, in the files where these are kept, and in what is noted
or listed of them. As long as no command asks for such a file, commands do the same in both, and
the two differ in nothing else afterwards.
-/

namespace CommandShell

variable {World : Type} {platform : Platform World}

/-- A view of worlds in which the files at some paths are not seen: whatever is written there, the
world is alike. Worlds that are like themselves are those that the view is made for. -/
structure Mask (platform : Platform World) where
  alike : World → World → Prop
  hides : Path → Prop
  symm : ∀ {left right}, alike left right → alike right left
  trans : ∀ {left middle right}, alike left middle → alike middle right → alike left right
  working : ∀ {left right}, alike left right →
    platform.workingDirectory? right = platform.workingDirectory? left
  update : ∀ {world path}, alike world world → hides path →
    ∀ change, alike world (platform.update world path change).1

/-! ### What is shown -/

/-- What a reader sees who leaves out all that tells of a history. -/
structure Sight where
  /-- Whether what is printed now comes from a command that lists the history. -/
  listing : Bool
  events : List Event

/-- Notices that the history failed are left out, and so is what the commands print that `lists`
tells. -/
def Sight.see (lists : List Text → Bool) (sight : Sight) : Event → Sight
  | .dispatched words => ⟨lists words, sight.events ++ [.dispatched words]⟩
  | .printed bytes =>
    if sight.listing then sight else ⟨false, sight.events ++ [.printed bytes]⟩
  | .noted (.historyFailed _) => sight
  | event => ⟨sight.listing, sight.events ++ [event]⟩

def Output.sight (lists : List Text → Bool) (output : Output) : Sight :=
  output.events.foldl (Sight.see lists) ⟨false, []⟩

variable (lists : List Text → Bool)

theorem Output.sight_emit (output : Output) (event : Event) :
    (output.emit event).sight lists = (output.sight lists).see lists event :=
  List.foldl_concat _ _ _ _

theorem Output.flatMap_sight {Shown : Type} {view : Event → List Shown}
    (hnoted : ∀ fault, view (.noted (.historyFailed fault)) = [])
    (hprinted : (∀ words, lists words = false) ∨ ∀ bytes, view (.printed bytes) = [])
    (output : Output) :
    (output.sight lists).events.flatMap view = output.events.flatMap view := by
  -- From any sight on: a listing hides what is printed, which the view then does not show either.
  suffices hfold : ∀ (events : List Event) (sight : Sight),
      (sight.listing = false ∨ ∀ bytes, view (.printed bytes) = []) →
        (events.foldl (Sight.see lists) sight).events.flatMap view =
          sight.events.flatMap view ++ events.flatMap view from
    hfold output.events ⟨false, []⟩ (.inl rfl)
  intro events
  induction events with
  | nil => exact fun sight _ => (List.append_nil _).symm
  | cons event rest ih =>
      intro sight hlisting
      have hsee : (sight.see lists event).events.flatMap view =
            sight.events.flatMap view ++ view event ∧
          ((sight.see lists event).listing = false ∨ ∀ bytes, view (.printed bytes) = []) := by
        cases event with
        | dispatched words =>
            exact ⟨by simp [Sight.see], hprinted.imp_left fun hnone => hnone words⟩
        | printed bytes =>
            cases hshown : sight.listing with
            | false => exact ⟨by simp [Sight.see, hshown], .inl (by simp [Sight.see, hshown])⟩
            | true =>
                have hunseen := hlisting.resolve_left (by simp [hshown])
                exact ⟨by simp [Sight.see, hshown, hunseen], .inr hunseen⟩
        | noted notice =>
            cases notice with
            | historyFailed fault => exact ⟨by simp [Sight.see, hnoted], hlisting⟩
            | _ => exact ⟨by simp [Sight.see], hlisting⟩
        | _ => exact ⟨by simp [Sight.see], hlisting⟩
      rw [List.foldl_cons, ih _ hsee.2, hsee.1, List.flatMap_cons, List.append_assoc]

/-! ### Sessions -/

/-- All that the history keeps in a file is hidden. -/
def History.HiddenBy (mask : Mask platform) (history : History) : Prop :=
  ∀ path ∈ history.path?, mask.hides path

/-- A writer that takes all that it is given. -/
structure Output.Unfailing (output : Output) : Prop where
  room : output.room = none
  flushes : output.refusesFlush = false

theorem Output.Unfailing.emit {output : Output} (hunfailing : output.Unfailing) (event : Event) :
    (output.emit event).Unfailing :=
  ⟨hunfailing.room, hunfailing.flushes⟩

namespace Session

structure Alike (mask : Mask platform) (lists : List Text → Bool) (left right : Session World) :
    Prop where
  program : right.program = left.program
  processId : right.processId = left.processId
  interactive : right.interactive = left.interactive
  environment : right.environment = left.environment
  aliases : right.aliases = left.aliases
  status : right.status = left.status
  line : right.line = left.line
  leaving : right.leaving = left.leaving
  world : mask.alike left.world right.world
  sight : right.output.sight lists = left.output.sight lists
  hidden : left.history.HiddenBy mask ∧ right.history.HiddenBy mask
  unfailing : left.output.Unfailing ∧ right.output.Unfailing

structure AlikeEnds (mask : Mask platform) (lists : List Text → Bool)
    (left right : Session World × Except Failure Status) : Prop where
  session : Alike mask lists left.1 right.1
  outcome : right.2 = left.2

variable {mask : Mask platform} {lists} {left middle right : Session World}

theorem Alike.symm (halike : Alike mask lists left right) : Alike mask lists right left where
  program := halike.program.symm
  processId := halike.processId.symm
  interactive := halike.interactive.symm
  environment := halike.environment.symm
  aliases := halike.aliases.symm
  status := halike.status.symm
  line := halike.line.symm
  leaving := halike.leaving.symm
  world := mask.symm halike.world
  sight := halike.sight.symm
  hidden := halike.hidden.symm
  unfailing := halike.unfailing.symm

theorem Alike.trans (hfront : Alike mask lists left middle)
    (hback : Alike mask lists middle right) : Alike mask lists left right where
  program := hback.program.trans hfront.program
  processId := hback.processId.trans hfront.processId
  interactive := hback.interactive.trans hfront.interactive
  environment := hback.environment.trans hfront.environment
  aliases := hback.aliases.trans hfront.aliases
  status := hback.status.trans hfront.status
  line := hback.line.trans hfront.line
  leaving := hback.leaving.trans hfront.leaving
  world := mask.trans hfront.world hback.world
  sight := hback.sight.trans hfront.sight
  hidden := ⟨hfront.hidden.1, hback.hidden.2⟩
  unfailing := ⟨hfront.unfailing.1, hback.unfailing.2⟩

theorem Alike.flatMap_events (halike : Alike mask lists left right) {Shown : Type}
    {view : Event → List Shown} (hnoted : ∀ fault, view (.noted (.historyFailed fault)) = [])
    (hprinted : (∀ words, lists words = false) ∨ ∀ bytes, view (.printed bytes) = []) :
    right.output.events.flatMap view = left.output.events.flatMap view := by
  rw [← Output.flatMap_sight lists hnoted hprinted, halike.sight,
    Output.flatMap_sight lists hnoted hprinted]

theorem Alike.commands (halike : Alike mask lists left right) :
    right.output.commands = left.output.commands := by
  simp only [Output.commands, List.filterMap_eq_flatMap_toList]
  exact halike.flatMap_events (fun _ => rfl) (.inr fun _ => rfl)

theorem Alike.reports (halike : Alike mask lists left right) :
    right.output.reports = left.output.reports := by
  simp only [Output.reports, List.filterMap_eq_flatMap_toList]
  exact halike.flatMap_events (fun _ => rfl) (.inr fun _ => rfl)

theorem Alike.printed (halike : Alike mask lists left right)
    (hnone : ∀ words, lists words = false) : right.output.printed = left.output.printed :=
  halike.flatMap_events (fun _ => rfl) (.inl hnone)

theorem Alike.emit (halike : Alike mask lists left right) (event : Event) :
    Alike mask lists (left.emit event) (right.emit event) :=
  { halike with
    sight := by simp only [Session.emit, Output.sight_emit, halike.sight]
    unfailing := ⟨halike.unfailing.1.emit event, halike.unfailing.2.emit event⟩ }

theorem print_of_unfailing (hunfailing : left.output.Unfailing) (text : Text) :
    left.print text = (left.emit (.printed (Utf8.encode text)), .ok ()) := by
  simp [Session.print, Output.print, Output.write, hunfailing.room, Session.emit]

theorem conclude_of_unfailing (hunfailing : left.output.Unfailing) (text : Text) :
    left.conclude text = (left.emit (.printed (Utf8.encode text)), .ok 0) := by
  simp [Session.conclude, print_of_unfailing hunfailing]

theorem Alike.print (halike : Alike mask lists left right) (text : Text) :
    Alike mask lists (left.print text).1 (right.print text).1 := by
  rw [print_of_unfailing halike.unfailing.1, print_of_unfailing halike.unfailing.2]
  exact halike.emit _

theorem Alike.conclude (halike : Alike mask lists left right) (text : Text) :
    AlikeEnds mask lists (left.conclude text) (right.conclude text) := by
  rw [conclude_of_unfailing halike.unfailing.1, conclude_of_unfailing halike.unfailing.2]
  exact ⟨halike.emit _, rfl⟩

theorem Alike.conclude_listing (halike : Alike mask lists left right)
    (hlisting : (left.output.sight lists).listing = true) (leftText rightText : Text) :
    AlikeEnds mask lists (left.conclude leftText) (right.conclude rightText) := by
  have hunseen : ∀ {output : Output} bytes, (output.sight lists).listing = true →
      (output.emit (.printed bytes)).sight lists = output.sight lists := by
    intro output bytes hshown
    rw [Output.sight_emit, Sight.see, if_pos hshown]
  have hright : (right.output.sight lists).listing = true := halike.sight ▸ hlisting
  rw [conclude_of_unfailing halike.unfailing.1, conclude_of_unfailing halike.unfailing.2]
  -- The texts differ as the histories do, and neither is seen.
  refine ⟨{ halike with
    sight := ?_, unfailing := ⟨halike.unfailing.1.emit _, halike.unfailing.2.emit _⟩ }, rfl⟩
  simp only [Session.emit, hunseen _ hlisting, hunseen _ hright, halike.sight]

end Session

/-! ### What a command asks of the system -/

namespace Mask

variable (mask : Mask platform)

/-- A child is refused in the same way or does the same. -/
inductive SameRun : Except Fault (ChildRun World) → Except Fault (ChildRun World) → Prop
  | refused (fault : Fault) : SameRun (.error fault) (.error fault)
  | ran (ending : Ending) (printed : List (Channel × Bytes)) {left right : World}
      (hworld : mask.alike left right) :
      SameRun (.ok { ending, printed, world := left }) (.ok { ending, printed, world := right })

/-- Neither the search for a command nor its child depends on a hidden file. -/
structure SparesChild (session : Session World) (name : Text) (arguments : List Text) :
    Prop where
  lookup : ∀ world, mask.alike session.world world →
    Child.locate platform { session with world } name = Child.locate platform session name
  launch : ∀ program, Child.locate platform session name = some program →
    ∀ world, mask.alike session.world world →
      let launch := Child.launchOf session.environment program name arguments
      mask.SameRun (platform.launch session.world launch) (platform.launch world launch)

/-- A change of directory does not depend on a hidden file. -/
structure SparesMove (session : Session World) (path : Path) : Prop where
  canonical : ∀ world, mask.alike session.world world →
    platform.canonical? world path = platform.canonical? session.world path
  enter : ∀ directory, platform.canonical? session.world path = some directory →
    ∀ world, mask.alike session.world world →
      Option.Rel mask.alike (platform.enter? session.world directory)
        (platform.enter? world directory)

/-- The command asks for no hidden file: neither its lookup, nor its child, nor `cd` does. -/
structure Spares (command : Command World) : Prop where
  child : Builtin.find? command.name = none →
    mask.SparesChild command.session command.name command.arguments
  move : Builtin.find? command.name = some .cd → ∀ target place announced,
    Builtin.cd.request command.arguments = .ok (.cd target) →
      Builtin.destination command.session.environment target = .ok (place, announced) →
        mask.SparesMove command.session (Path.join command.session.environment.directory place)

end Mask

namespace Builtin

open Session

variable {mask : Mask platform} {lists} {left right : Session World}

theorem alike_leave (halike : Alike mask lists left right) (operand : Option Text) :
    AlikeEnds mask lists (leave left operand) (leave right operand) := by
  cases operand with
  | none =>
      have hleaving : some right.status = some left.status := congrArg some halike.status
      exact ⟨{ halike with leaving := hleaving }, congrArg Except.ok halike.status⟩
  | some text =>
      simp only [leave]
      cases exitStatus? text with
      | none => exact ⟨halike, rfl⟩
      | some code => exact ⟨{ halike with leaving := rfl }, rfl⟩

theorem alike_describe (halike : Alike mask lists left right) (topic : Option Text) :
    AlikeEnds mask lists (describe left topic) (describe right topic) := by
  cases topic with
  | none =>
      simp only [describe, halike.program]
      exact halike.conclude _
  | some name =>
      simp only [describe]
      cases find? name with
      | none => exact ⟨halike, rfl⟩
      | some builtin => exact halike.conclude _

theorem alike_setVariable (halike : Alike mask lists left right) (name value : Text) :
    AlikeEnds mask lists (setVariable left name value) (setVariable right name value) := by
  unfold setVariable
  split
  · exact ⟨{ halike with environment := congrArg (·.set name value) halike.environment }, rfl⟩
  · exact ⟨halike, rfl⟩

theorem alike_unsetVariables (halike : Alike mask lists left right) (names : List Text) :
    AlikeEnds mask lists (unsetVariables left names) (unsetVariables right names) := by
  unfold unsetVariables
  split
  · exact ⟨halike, rfl⟩
  · exact ⟨{ halike with
      environment := congrArg (names.foldl Environment.unset) halike.environment }, rfl⟩

theorem alike_define (halike : Alike mask lists left right) (missing : List Text)
    (definitions : List Alias.Definition) :
    Alike mask lists (define left missing definitions).1 (define right missing definitions).1 ∧
      (define right missing definitions).2 = (define left missing definitions).2 := by
  induction definitions generalizing left right missing with
  | nil => exact ⟨halike, rfl⟩
  | cons definition rest ih =>
      cases definition with
      | define name value =>
          cases name with
          | nil => exact ⟨halike, rfl⟩
          | cons first others =>
              have hput : Alike mask lists
                  { left with aliases := left.aliases.put (first :: others) value }
                  { right with aliases := right.aliases.put (first :: others) value } :=
                { halike with aliases := congrArg (·.put (first :: others) value) halike.aliases }
              simpa only [define] using ih hput missing
      | query name =>
          simp only [define, halike.aliases]
          cases left.aliases.get? name with
          | none => exact ih halike (missing ++ [name])
          | some value =>
              simp only [print_of_unfailing halike.unfailing.1,
                print_of_unfailing halike.unfailing.2]
              exact ih (halike.emit _) missing

theorem alike_runAlias (halike : Alike mask lists left right) (definitions : List Text) :
    AlikeEnds mask lists (runAlias left definitions) (runAlias right definitions) := by
  unfold runAlias
  split
  · rw [halike.aliases]
    exact halike.conclude _
  · obtain ⟨hsession, houtcome⟩ :=
      alike_define halike [] (Alias.Definition.parse (Text.joined " " definitions))
    generalize define left [] _ = leftEnd at hsession houtcome
    generalize define right [] _ = rightEnd at hsession houtcome
    obtain ⟨leftAfter, outcome⟩ := leftEnd
    obtain ⟨rightAfter, other⟩ := rightEnd
    obtain rfl : other = outcome := houtcome
    rcases other with failure | _ | _ <;> exact ⟨hsession, rfl⟩

theorem alike_changeDirectory (halike : Alike mask lists left right) (target : Option Text)
    (hspares : ∀ place announced, destination left.environment target = .ok (place, announced) →
      mask.SparesMove left (Path.join left.environment.directory place)) :
    AlikeEnds mask lists (changeDirectory platform left target)
      (changeDirectory platform right target) := by
  unfold changeDirectory
  rw [halike.environment]
  cases hdestination : destination left.environment target with
  | error failure => exact ⟨halike, rfl⟩
  | ok found =>
      obtain ⟨place, announced⟩ := found
      have hmove := hspares place announced hdestination
      simp only [hmove.canonical _ halike.world]
      cases hcanonical : platform.canonical? left.world
          (Path.join left.environment.directory place) with
      | none => exact ⟨halike, rfl⟩
      | some directory =>
          have henter := hmove.enter directory hcanonical right.world halike.world
          simp only
          generalize platform.enter? left.world directory = leftEntered at henter
          generalize platform.enter? right.world directory = rightEntered at henter
          cases henter with
          | none => exact ⟨halike, rfl⟩
          | @some leftWorld rightWorld hworld =>
              have hmoved : Alike mask lists
                  { left with
                    world := leftWorld, environment := moved left.environment directory }
                  { right with
                    world := rightWorld, environment := moved left.environment directory } :=
                { halike with world := hworld, environment := rfl }
              simp only
              split
              · exact hmoved.conclude _
              · exact ⟨hmoved, rfl⟩

theorem alike_perform (halike : Alike mask lists left right) (request : Request)
    (hlisting : request = .history → (left.output.sight lists).listing = true)
    (hspares : ∀ target place announced, request = .cd target →
      destination left.environment target = .ok (place, announced) →
        mask.SparesMove left (Path.join left.environment.directory place)) :
    AlikeEnds mask lists (perform platform left request) (perform platform right request) := by
  cases request with
  | explain builtin => exact halike.conclude _
  | exit operand => exact alike_leave halike operand
  | cd target =>
      exact alike_changeDirectory halike target fun place announced =>
        hspares target place announced rfl
  | help topic => exact alike_describe halike topic
  | env =>
      simp only [perform, listVariables, halike.environment]
      exact halike.conclude _
  | setenv name value => exact alike_setVariable halike name value
  | unsetenv names => exact alike_unsetVariables halike names
  | «alias» definitions => exact alike_runAlias halike definitions
  | history => exact halike.conclude_listing (hlisting rfl) _ _

end Builtin

namespace Child

open Session

variable {mask : Mask platform} {lists} {left right : Session World}

theorem alike_foldl_child {left right : Output} (hsight : right.sight lists = left.sight lists)
    (hunfailing : left.Unfailing ∧ right.Unfailing) (printed : List (Channel × Bytes)) :
    let told := fun (output : Output) (printed : Channel × Bytes) =>
      output.emit (.child printed.1 printed.2)
    (printed.foldl told right).sight lists = (printed.foldl told left).sight lists ∧
      (printed.foldl told left).Unfailing ∧ (printed.foldl told right).Unfailing := by
  induction printed generalizing left right with
  | nil => exact ⟨hsight, hunfailing⟩
  | cons entry rest ih =>
      refine ih ?_ ⟨hunfailing.1.emit _, hunfailing.2.emit _⟩
      rw [Output.sight_emit, Output.sight_emit, hsight]

theorem alike_run (halike : Alike mask lists left right) (name : Text) (arguments : List Text)
    (hspares : mask.SparesChild left name arguments) :
    AlikeEnds mask lists (run platform left name arguments)
      (run platform right name arguments) := by
  have hlocate : locate platform right name = locate platform left name := by
    rw [← hspares.lookup right.world halike.world]
    unfold locate
    rw [halike.environment]
  unfold run
  rw [hlocate]
  cases hprogram : locate platform left name with
  | none => exact ⟨halike, rfl⟩
  | some program =>
      have hlaunch : mask.SameRun
          (platform.launch left.world (launchOf left.environment program name arguments))
          (platform.launch right.world (launchOf left.environment program name arguments)) :=
        hspares.launch program hprogram right.world halike.world
      simp only [Output.flush, halike.unfailing.1.flushes, halike.unfailing.2.flushes,
        halike.environment, start]
      by_cases hnul : (launchOf left.environment program name arguments).holdsNul = true
      · simp only [hnul, if_true]
        exact ⟨halike, rfl⟩
      · simp only [hnul, Bool.false_eq_true, if_false]
        generalize platform.launch left.world _ = leftRun at hlaunch
        generalize platform.launch right.world _ = rightRun at hlaunch
        cases hlaunch with
        | refused fault => exact ⟨halike, rfl⟩
        | ran ending printed hworld =>
            obtain ⟨hsight, hleft, hright⟩ :=
              alike_foldl_child halike.sight halike.unfailing printed
            exact ⟨{ halike with
              environment := rfl, world := hworld, sight := hsight
              unfailing := ⟨hleft, hright⟩ }, rfl⟩

end Child

/-! ### One command -/

namespace Session

variable {mask : Mask platform} {lists} {left right : Session World}

theorem Alike.settle (halike : Alike mask lists left right) (name : Text)
    (outcome : Except Failure Status) :
    Alike mask lists (left.settle name outcome) (right.settle name outcome) := by
  cases outcome with
  | ok status => exact { halike with status := rfl }
  | error failure =>
      have hreport : right.reportLine name failure = left.reportLine name failure := by
        simp only [reportLine, halike.program, halike.line]
      simp only [Session.settle, hreport]
      exact { halike.emit (.reported (left.reportLine name failure)) with status := rfl }

theorem Alike.endInterrupt (halike : Alike mask lists left right) :
    Alike mask lists left.endInterrupt right.endInterrupt := by
  simp only [Session.endInterrupt, halike.interactive, halike.status]
  split
  · exact halike.print _
  · exact halike

theorem flush_of_unfailing (hunfailing : left.output.Unfailing) : left.flush = left := by
  simp [Session.flush, Output.flush, hunfailing.flushes]

theorem Alike.flush (halike : Alike mask lists left right) :
    Alike mask lists left.flush right.flush := by
  rwa [flush_of_unfailing halike.unfailing.1, flush_of_unfailing halike.unfailing.2]

end Session

namespace Command

open Session

variable {mask : Mask platform} {lists} {command : Command World} {other : Session World}

/-- The command ends alike in sessions that are alike, when it asks for no hidden file and `lists`
tells of it if it lists the history. -/
theorem alike_ended (halike : Alike mask lists command.session other)
    (hspares : mask.Spares command)
    (hlists : Builtin.find? command.name = some .history → lists command.words = true) :
    AlikeEnds mask lists (command.ended platform)
      ({ command with session := other }.ended platform) := by
  have hstart := halike.emit (.dispatched command.words)
  unfold ended dispatch
  cases hbuiltin : Builtin.find? command.name with
  | none =>
      have hchild := hspares.child hbuiltin
      exact Child.alike_run hstart _ _ ⟨hchild.lookup, hchild.launch⟩
  | some builtin =>
      simp only [Builtin.run]
      cases hrequest : builtin.request command.arguments with
      | error fault => exact ⟨hstart, rfl⟩
      | ok request =>
          have howner := Builtin.owner?_of_request hrequest
          refine Builtin.alike_perform hstart request ?_ ?_
          · rintro rfl
            obtain rfl : Builtin.history = builtin := by simpa [Builtin.Request.owner?] using howner
            rw [emit, Output.sight_emit]
            exact hlists hbuiltin
          · rintro target place announced rfl hdestination
            obtain rfl : Builtin.cd = builtin := by simpa [Builtin.Request.owner?] using howner
            have hmove := hspares.move hbuiltin target place announced hrequest hdestination
            exact ⟨hmove.canonical, hmove.enter⟩

theorem alike_after (halike : Alike mask lists command.session other)
    (hspares : mask.Spares command)
    (hlists : Builtin.find? command.name = some .history → lists command.words = true) :
    Alike mask lists (command.after platform)
      ({ command with session := other }.after platform) := by
  obtain ⟨hended, houtcome⟩ := alike_ended halike hspares hlists
  rw [after_eq, after_eq, houtcome]
  exact ((hended.settle _ _).endInterrupt).flush

end Command

end CommandShell
