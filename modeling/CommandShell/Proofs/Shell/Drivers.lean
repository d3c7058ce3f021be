import CommandShell.Proofs.Line.Cutting
import CommandShell.Proofs.Line.Reading
import CommandShell.Proofs.Session.Frame
import CommandShell.Proofs.Shell.Unseen

/-!
# One content, four ways to run it

The lines of a content are read from a stream, from a file while it is run, by an editor, or all at
once at the start of a session. They come out cut in different ways; what is run of them is the
same, so the runs are, up to what is recorded of them.
-/

namespace CommandShell.Shell

variable {World : Type} {platform : Platform World}

theorem runEach_congr {lines others : List Text}
    (hlines : List.Forall₂ (fun line other => Line.accepted? line = Line.accepted? other) lines
      others) (recorded : Bool) (shell : Shell World) :
    shell.runEach platform recorded lines = shell.runEach platform recorded others := by
  induction hlines generalizing shell with
  | nil => rfl
  | cons haccepted hrest ih =>
      rw [runEach, runEach, executeLine_congr platform _ haccepted]
      simp only [ih]

/-! ### A file that is run -/

/-- Whenever the run of the lines comes back to the file, it has the content. -/
def Serves (platform : Platform World) (file : OpenFile World) (content : Bytes)
    (shell : Shell World) (lines : List Text) : Prop :=
  ∀ front before, front <+: lines → shell.runLines platform front = (before, none) →
    file before.session.world = .ok content

theorem Serves.now {file : OpenFile World} {content : Bytes} {shell : Shell World}
    {lines : List Text} (hserves : Serves platform file content shell lines) :
    file shell.session.world = .ok content :=
  hserves [] shell List.nil_prefix rfl

theorem Serves.later {file : OpenFile World} {content : Bytes} {shell after : Shell World}
    {line : Text} {rest : List Text} (hserves : Serves platform file content shell (line :: rest))
    (hrun : shell.runLine platform line = (after, none)) :
    Serves platform file content after rest := by
  intro front before hfront hbefore
  refine hserves (line :: front) before ((List.prefix_cons_inj line).mpr hfront) ?_
  rw [runLines, hrun]
  exact hbefore

theorem runFile_of_none {file : OpenFile World} {limit : Nat} {shell : Shell World}
    {cursor : Line.Cursor} (hnext : cursor.next? limit (file shell.session.world) = .ok none) :
    shell.runFile platform file limit cursor = (shell, none) := by
  rw [runFile]
  split <;> next hfound => simp_all

theorem runFile_of_some {file : OpenFile World} {limit : Nat} {shell : Shell World}
    {cursor next : Line.Cursor} {line : Bytes}
    (hnext : cursor.next? limit (file shell.session.world) = .ok (some (line, next))) :
    shell.runFile platform file limit cursor =
      andThen (shell.runLine platform (Utf8.decodeLossy line)) fun after =>
        after.runFile platform file limit next := by
  rw [runFile]
  split
  · next hfound => simp [hfound] at hnext
  · next hfound => simp [hfound] at hnext
  · next found rest hfound =>
    obtain ⟨rfl, rfl⟩ : found = line ∧ rest = next := by simpa [hfound] using hnext
    rfl

/-- A file that keeps its content is run like a stream of it. -/
theorem runFile_of_serves {file : OpenFile World} {content : Bytes} {limit : Nat}
    (hlimit : content.length ≤ limit) (lines : List Bytes) {shell : Shell World}
    {cursor : Line.Cursor} (hlines : Line.ofBytes (cursor.unread content) = lines)
    (hserves : Serves platform file content shell (lines.map Utf8.decodeLossy)) :
    shell.runFile platform file limit cursor =
      shell.runLines platform (lines.map Utf8.decodeLossy) := by
  -- On the lines that are left: each of them moves the shell and the cursor on.
  induction lines generalizing shell cursor with
  | nil =>
      rcases Line.Cursor.next?_of_content Fault hlimit cursor with
        ⟨-, hnext⟩ | ⟨next, hne, -⟩
      · exact runFile_of_none (hserves.now ▸ hnext)
      · rw [Line.ofBytes_of_ne_nil hne] at hlines
        cases hlines
  | cons line rest ih =>
      rcases Line.Cursor.next?_of_content Fault hlimit cursor with
        ⟨hnone, -⟩ | ⟨next, hne, hnext, hunread⟩
      · rw [hnone] at hlines
        cases hlines
      · rw [Line.ofBytes_of_ne_nil hne, ← hunread] at hlines
        obtain ⟨rfl, hrest⟩ := List.cons.inj hlines
        rw [runFile_of_some (hserves.now ▸ hnext), List.map_cons, runLines_cons]
        exact andThen_congr fun after hrun => ih hrest (hserves.later hrun)

theorem runScript_of_serves {shell : Shell World} {path : Path} {file : OpenFile World}
    {content : Bytes} (hopen : platform.openFile shell.session.world path = .ok file)
    (hserves : Serves platform file content shell ((Line.ofBytes content).map Utf8.decodeLossy)) :
    shell.runScript platform path = shell.runReader platform content := by
  have hlimit : content.length ≤ content.length + maxGrowth := Nat.le_add_right _ _
  have hrun := runFile_of_serves hlimit (Line.ofBytes content)
    (congrArg Line.ofBytes (Line.Cursor.unread_start content)) hserves
  unfold runScript runReader
  simp only [hopen, hserves.now, Except.toOption, Option.getD_some, hrun]

/-! ### An editor -/

/-- Lines without a backspace are taken as they are typed, and the end of input is answered. -/
theorem runTyped_encode (lines : List Text) (hplain : ∀ line ∈ lines, '\x08' ∉ line)
    (shell : Shell World) :
    shell.runTyped platform none (lines.map Utf8.encode) =
      andThen (shell.runLines platform lines) fun after => (after.endInput, none) := by
  induction lines generalizing shell with
  | nil => rfl
  | cons line rest ih =>
      obtain ⟨hline, hrest⟩ := List.forall_mem_cons.mp hplain
      have herased : Line.erased line = line := by
        rw [Line.erased, if_neg (by simpa [Line.backspace] using hline)]
      have hask : shell.ask none = shell := rfl
      rw [List.map_cons, runTyped, Utf8.decode?_encode, hask, runLines]
      simp only [herased]
      rcases shell.runLine platform line with ⟨after, _ | code⟩
      · exact ih hrest after
      · rfl

theorem status_endInput (shell : Shell World) :
    shell.endInput.session.status = shell.session.status := by
  unfold endInput
  rw [Session.print_eq]

theorem interact_encode (platform : Platform World) {shell : Shell World}
    (hstays : shell.session.leaving = none) {text : Text} (hplain : '\x08' ∉ text) :
    let reader := shell.runReader platform (Utf8.encode text)
    shell.interact platform none (Utf8.encode text) =
      (if reader.1.session.leaving.isSome then reader.1 else reader.1.endInput, reader.2) := by
  have hlines : ∀ line ∈ Line.ofText text, '\x08' ∉ line := fun line hline hbackspace =>
    hplain (Line.mem_of_mem_ofText hline _ hbackspace)
  have hanswer := leaving_runLines platform hstays (Line.cut '\n' text)
  rw [runReader, Line.ofBytes_encode, interact, Line.typed_encode, runTyped_encode _ hlines]
  rw [runLines_eq_runEach, runEach_congr (Line.accepted?_ofText text)] at hanswer ⊢
  rw [runLines_eq_runEach]
  generalize shell.runEach platform true (Line.ofText text) = run at hanswer
  obtain ⟨after, _ | code⟩ := run
  · have hnone : after.session.leaving = none := hanswer.symm
    simp only [statusOf, andThen, hnone, status_endInput]
    rfl
  · have hsome : after.session.leaving = some code := hanswer.symm
    simp only [statusOf, andThen, hsome]
    rfl

/-! ### A startup file -/

theorem history_runEach (shell : Shell World) (lines : List Text) :
    (shell.runEach platform false lines).1.session.history = shell.session.history := by
  have hspares : platform.Spares fun _ => True := ⟨fun _ hkept => hkept, fun _ hkept => hkept⟩
  induction lines generalizing shell with
  | nil => rfl
  | cons line rest ih =>
      have hline : (shell.countLine.executeLine platform line false).1.session.history =
          shell.session.history := by
        unfold executeLine
        cases Line.accepted? line with
        | none => rfl
        | some text =>
            exact (frame_drain hspares shell.countLine.session (Chain.split text)).history
      rw [runEach]
      generalize shell.countLine.executeLine platform line false = run at hline
      obtain ⟨after, _ | code⟩ := run
      · exact (ih after).trans hline
      · exact hline

theorem source_encode {shell : Shell World} {path : Path} {text : Text}
    (hread : platform.read shell.session.world path = .ok (Utf8.encode text)) :
    shell.source platform path =
      let run := (shell.setLine 0).runEach platform false (Line.cut '\n' text)
      (run.1.setLine shell.session.line, run.2) := by
  rw [source, hread]
  simp only [Utf8.decode?_encode, sourceText, sourceLines_eq_runEach,
    runEach_congr (Line.accepted?_ofText text)]

/-! ### Line numbers -/

/-- Reports that name the program and the line. -/
def TellsOf (session : Session World) : Event → Prop
  | .reported line => ∃ name failure, line = session.reportLine name failure
  | _ => True

theorem TellsOf.of_eq {session later : Session World} (hprogram : later.program = session.program)
    (hline : later.line = session.line) {event : Event} (htells : TellsOf later event) :
    TellsOf session event := by
  cases event with
  | reported line =>
      obtain ⟨name, failure, rfl⟩ := htells
      exact ⟨name, failure, by simp only [Session.reportLine, hprogram, hline]⟩
  | _ => trivial

theorem Course.sequel {start final : Session World} {taken : List (Command World)}
    (hcourse : Course platform start taken final) :
    Session.Sequel (TellsOf start) start final := by
  have hafter : ∀ command : Command World,
      Session.Sequel (TellsOf command.session) command.session (command.after platform) := by
    intro command
    have hlets : ∀ event, command.Lets event → TellsOf command.session event := by
      intro event hlets
      cases event with
      | reported line => exact ⟨command.name, hlets⟩
      | _ => trivial
    exact (Session.sequel_emit command.session trivial).trans
      ((command.sequel_after platform).mono hlets)
  induction hcourse with
  | done session => exact .refl session
  | leave command => exact hafter command
  | stay command hleaving hrest ih =>
      have hcommand := hafter command
      exact hcommand.trans (ih.mono fun _ => .of_eq hcommand.program hcommand.line)

/-- Between the two states, reports were made that all carry the number of the line. -/
def ReportsAt (number : Nat) (before after : Session World) : Prop :=
  ∃ made, after.output.reports = before.output.reports ++ made ∧
    ∀ report ∈ made, ∃ (name : Text) (failure : Failure),
      report = before.program ++ ": " ++ Decimal.ofNat number ++ ": " ++ failure.report name

theorem reportsAt_of_sequel {before after : Session World}
    (hsequel : Session.Sequel (TellsOf before) before after) :
    ReportsAt before.line before after := by
  obtain ⟨made, hevents, hmade⟩ := hsequel.grows
  refine ⟨made.filterMap Event.report?, ?_, ?_⟩
  · rw [Output.reports, hevents, List.filterMap_append, ← Output.reports]
  · intro report hreport
    obtain ⟨event, hmember, hreported⟩ := List.mem_filterMap.mp hreport
    have htells := hmade event hmember
    cases event with
    | reported line =>
        obtain ⟨name, failure, rfl⟩ := htells
        exact ⟨name, failure, (Option.some.inj hreported).symm⟩
    | _ => cases hreported

theorem sequel_executeLine (platform : Platform World) {shell : Shell World}
    (hstays : shell.session.leaving = none) (line : Text) (recorded : Bool) :
    Session.Sequel (TellsOf shell.session) shell.session
        (shell.executeLine platform line recorded).1.session ∧
      (shell.executeLine platform line recorded).2 =
        (shell.executeLine platform line recorded).1.session.leaving := by
  obtain ⟨start, hstarts, hcourse, hanswer⟩ :=
    course_executeLine platform hstays line recorded
  have hnotices : ∀ event, IsNotice event → TellsOf shell.session event := by
    intro event hnotice
    cases event with
    | reported line => cases hnotice
    | _ => trivial
  refine ⟨(hstarts.sequel.mono hnotices).trans (hcourse.sequel.mono fun _ => ?_), hanswer⟩
  exact .of_eq hstarts.sequel.program hstarts.sequel.line

theorem line_of_runEach {shell before : Shell World} (hstays : shell.session.leaving = none)
    {recorded : Bool} {front : List Text}
    (hfront : shell.runEach platform recorded front = (before, none)) :
    before.session.leaving = none ∧ before.session.line = shell.session.line + front.length := by
  induction front generalizing shell with
  | nil =>
      obtain rfl := (Prod.mk.inj hfront).1
      exact ⟨hstays, rfl⟩
  | cons line rest ih =>
      have hcounted : shell.countLine.session.leaving = none := hstays
      obtain ⟨hsequel, hanswer⟩ := sequel_executeLine platform hcounted line recorded
      rw [runEach] at hfront
      generalize shell.countLine.executeLine platform line recorded = run
        at hsequel hanswer hfront
      obtain ⟨after, _ | code⟩ := run
      · obtain ⟨hleaving, hline⟩ := ih hanswer.symm hfront
        have hcounted : after.session.line = shell.session.line + 1 := hsequel.line
        refine ⟨hleaving, ?_⟩
        rw [hline, hcounted, List.length_cons]
        omega
      · cases hfront

theorem reportsAt_executeLine {shell before : Shell World} (hstays : shell.session.leaving = none)
    (hline : shell.session.line = 0) {recorded : Bool} {front : List Text}
    (hfront : shell.runEach platform recorded front = (before, none)) (line : Text) :
    ReportsAt (front.length + 1) before.session
      (before.countLine.executeLine platform line recorded).1.session := by
  obtain ⟨hleaving, hcount⟩ := line_of_runEach hstays hfront
  have hcounted : before.countLine.session.leaving = none := hleaving
  have hreports := reportsAt_of_sequel (sequel_executeLine platform hcounted line recorded).1
  have hnumber : before.countLine.session.line = front.length + 1 := by
    change before.session.line + 1 = front.length + 1
    rw [hcount, hline, Nat.zero_add]
  rw [hnumber] at hreports
  exact hreports

/-! ### All drivers -/

theorem alike_source {mask : Mask platform} {shell : Shell World} {text : Text} {path : Path}
    (hline : shell.session.line = 0) (hunfailing : shell.session.output.Unfailing)
    (hhidden : shell.session.history.HiddenBy mask)
    (hworld : mask.alike shell.session.world shell.session.world)
    (hspares : ∀ command ∈ shell.commands platform (Line.cut '\n' text), mask.Spares command)
    (hread : platform.read shell.session.world path = .ok (Utf8.encode text)) :
    let run := shell.runLines platform (Line.cut '\n' text)
    let sourced := shell.source platform path
    sourced.2 = run.2 ∧
      Session.Alike mask listsHistory run.1.session
        (sourced.1.setLine run.1.session.line).session := by
  have halike : Session.Alike mask listsHistory shell.session (shell.setLine 0).session := {
    program := rfl
    processId := rfl
    interactive := rfl
    environment := rfl
    aliases := rfl
    status := rfl
    line := hline.symm
    leaving := rfl
    world := hworld
    sight := rfl
    hidden := ⟨hhidden, hhidden⟩
    unfailing := ⟨hunfailing, hunfailing⟩ }
  obtain ⟨hsession, houtcome⟩ := alike_runLines halike false (Line.cut '\n' text)
    (Session.admits_listsHistory hspares)
  rw [source_encode hread]
  exact ⟨houtcome, { hsession with line := rfl }⟩

/-- Whichever way a content is run, its commands, its reports and the session behind them are the
same, but for what is recorded of the lines. -/
theorem drivers_agree (mask : Mask platform) {shell : Shell World} {text : Text} {path : Path}
    {file : OpenFile World} (hline : shell.session.line = 0)
    (hstays : shell.session.leaving = none) (hunfailing : shell.session.output.Unfailing)
    (hhidden : shell.session.history.HiddenBy mask)
    (hworld : mask.alike shell.session.world shell.session.world)
    (hspares : ∀ command ∈ shell.commands platform
      ((Line.ofBytes (Utf8.encode text)).map Utf8.decodeLossy), mask.Spares command)
    (hopen : platform.openFile shell.session.world path = .ok file)
    (hserves : Serves platform file (Utf8.encode text) shell
      ((Line.ofBytes (Utf8.encode text)).map Utf8.decodeLossy)) :
    let reader := shell.runReader platform (Utf8.encode text)
    let sourced := shell.source platform path
    shell.runScript platform path = reader ∧
      ('\x08' ∉ text → shell.interact platform none (Utf8.encode text) =
        (if reader.1.session.leaving.isSome then reader.1 else reader.1.endInput, reader.2)) ∧
      (sourced.2 = reader.1.session.leaving ∧
        Session.Alike mask listsHistory reader.1.session
          (sourced.1.setLine reader.1.session.line).session ∧
        sourced.1.session.output.commands = reader.1.session.output.commands ∧
        sourced.1.session.output.reports = reader.1.session.output.reports ∧
        sourced.1.session.history = shell.session.history ∧ sourced.1.session.line = 0) ∧
      (∀ front before line, shell.runLines platform front = (before, none) →
        ReportsAt (front.length + 1) before.session
          (before.runLine platform line).1.session) ∧
      ∀ front before line, (shell.setLine 0).sourceLines platform front = (before, none) →
        ReportsAt (front.length + 1) before.session
          (before.countLine.executeLine platform line false).1.session := by
  have hread : platform.read shell.session.world path = .ok (Utf8.encode text) := by
    rw [Platform.read, hopen]
    simp only [hserves.now, Except.mapError]
  have hscript := runScript_of_serves hopen hserves
  rw [Line.ofBytes_encode] at hspares
  obtain ⟨houtcome, halike⟩ := alike_source hline hunfailing hhidden hworld hspares hread
  rw [leaving_runLines platform hstays] at houtcome
  have hreader : (shell.runReader platform (Utf8.encode text)).1 =
      (shell.runLines platform (Line.cut '\n' text)).1 := by
    rw [runReader, Line.ofBytes_encode, fst_statusOf]
  simp only [hreader]
  refine ⟨hscript, ?_, ⟨houtcome, halike, halike.commands, halike.reports, ?_, ?_⟩, ?_, ?_⟩
  · intro hplain
    exact hreader ▸ interact_encode platform hstays hplain
  · rw [source_encode hread]
    exact history_runEach _ _
  · rw [source_encode hread]
    exact hline
  · intro front before line hfront
    rw [runLines_eq_runEach] at hfront
    exact reportsAt_executeLine hstays hline hfront line
  · intro front before line hfront
    rw [sourceLines_eq_runEach] at hfront
    have hrestarted : (shell.setLine 0).session.leaving = none := hstays
    exact reportsAt_executeLine hrestarted rfl hfront line

/-- A file in the root directory is read again in each later state that still holds it. -/
theorem exists_openFile_root {name : Text} (hname : Host.FileSystem.IsName name) {host : Host}
    {content : Bytes} {executable : Bool}
    (hnode : host.files.node? [name] = some (.file content executable)) :
    ∃ file, host.openFile ('/' :: name) = .ok file ∧ ∀ {later : Host} {found : Bytes},
      later.files.node? [name] = some (.file found executable) → file later = .ok found := by
  have hholds : Host.HoldsInRoot name host (some content) := ⟨executable, hnode⟩
  have hfind := (hholds.confined hname).leads.find
  rw [hnode] at hfind
  rw [Host.openFile, hfind]
  exact ⟨_, rfl, fun hlater => by simp only [hlater]⟩

/-- A shell on a host whose root directory holds a script. -/
def besideScript (history : History) (script : Text) : Shell Host :=
  { session :=
      { (onBareHost []).session with
        history
        world := Host.bare.put [['s']] (.file (Utf8.encode script) false) } }

theorem isName_s : Host.FileSystem.IsName ['s'] := ⟨by decide, by decide, by decide, by decide⟩

theorem drivers_agree_move :
    let shell := besideScript (History.new (some "/h") 16 .eachLine) "cd /tmp\n"
    let reader := shell.runReader (Host.platform 2) (Utf8.encode "cd /tmp\n".toList)
    (∃ file, (Host.platform 2).openFile shell.session.world "/s" = .ok file ∧
        Serves (Host.platform 2) file (Utf8.encode "cd /tmp\n".toList) shell
          ["cd /tmp".toList]) ∧
      shell.runScript (Host.platform 2) "/s" = reader ∧
        (shell.source (Host.platform 2) "/s").2 = reader.1.session.leaving := by
  intro shell reader
  have habsent : shell.session.world.files.node? [['h']] = none := by decide +kernel
  have hworld : (Host.rootMask Host.isName_h 2).alike shell.session.world shell.session.world :=
    ⟨rfl, fun _ _ => rfl, ⟨none, habsent⟩, ⟨none, habsent⟩⟩
  have hlines : (Line.ofBytes (Utf8.encode "cd /tmp\n".toList)).map Utf8.decodeLossy =
      ["cd /tmp".toList] := by decide +kernel
  have hspares : ∀ command ∈ shell.commands (Host.platform 2)
      ((Line.ofBytes (Utf8.encode "cd /tmp\n".toList)).map Utf8.decodeLossy),
        (Host.rootMask Host.isName_h 2).Spares command := by
    rw [hlines]
    exact spares_commands_cd_tmp (by decide) (by decide +kernel)
  have hnode : shell.session.world.files.node? [['s']] =
      some (.file (Utf8.encode "cd /tmp\n".toList) false) := by decide +kernel
  obtain ⟨file, hopened, hread⟩ := exists_openFile_root isName_s hnode
  have hopen : (Host.platform 2).openFile shell.session.world "/s" = .ok file := hopened
  have hserves : Serves (Host.platform 2) file (Utf8.encode "cd /tmp\n".toList) shell
      ["cd /tmp".toList] := by
    intro front before hfront hbefore
    rcases List.prefix_cons_iff.mp hfront with rfl | ⟨rest, rfl, hrest⟩
    · obtain rfl := (Prod.mk.inj hbefore).1
      exact hread hnode
    · obtain rfl := List.prefix_nil.mp hrest
      have haccepted : Line.accepted? "cd /tmp" = some "cd /tmp".toList := by decide
      have hrun : shell.runLine (Host.platform 2) "cd /tmp" = _ :=
        executeLine_of_plain _ shell.countLine haccepted (by decide) (by decide) true
      have hafter := fst_runLines_singleton (Host.platform 2) shell "cd /tmp"
      rw [hbefore, hrun] at hafter
      obtain rfl := hafter
      exact hread (by decide +kernel)
  obtain ⟨hscript, -, ⟨hsource, -⟩, -⟩ := drivers_agree (Host.rootMask Host.isName_h 2) rfl rfl
    ⟨rfl, rfl⟩ (fun path hpath => (Option.some.inj hpath).symm) hworld hspares hopen
    (hlines ▸ hserves)
  exact ⟨⟨file, hopen, hserves⟩, hscript, hsource⟩

theorem spares_commands_exit_x {shell : Shell Host} {name : Text}
    (hname : Host.FileSystem.IsName name) (halias : shell.session.aliases.get? "exit" = none) :
    ∀ command ∈ shell.commands (Host.platform 2) ["exit x".toList],
      (Host.rootMask hname 2).Spares command := by
  have haccepted : Line.accepted? "exit x" = some "exit x".toList := by decide
  rw [commands_of_plain _ _ haccepted (by decide) halias (by decide) rfl]
  exact List.forall_mem_singleton.mpr
    ⟨fun hnone => absurd hnone (show ¬ Builtin.find? "exit" = none by decide),
      fun hcd => absurd hcd (show ¬ Builtin.find? "exit" = some .cd by decide)⟩

/-- The shell behind the line `exit x`, recorded and run. -/
def behindExitX (shell : Shell Host) : Shell Host :=
  { session := (remember (Host.platform 2) shell.countLine.session "exit x").runSegment
      (Host.platform 2) { text := "exit x", operator := .start } }

theorem runLine_exit_x {shell : Shell Host} (halias : shell.session.aliases.get? "exit" = none)
    (hstays : (behindExitX shell).session.leaving = none) :
    shell.runLine (Host.platform 2) "exit x" = (behindExitX shell, none) := by
  have haccepted : Line.accepted? "exit x" = some "exit x".toList := by decide
  rw [← hstays]
  exact executeLine_of_plain _ shell.countLine haccepted (by decide) halias true

/-- A shell that runs the file in which it keeps its history. -/
def besideOwnHistory : Shell Host :=
  besideScript (History.new (some "/s") 1 .eachLine) "exit x\n"

theorem runFile_own_history {file : OpenFile Host}
    (hread : ∀ {later : Host} {found : Bytes},
      later.files.node? [['s']] = some (.file found false) → file later = .ok found) :
    besideOwnHistory.runFile (Host.platform 2) file (7 + maxGrowth) .start =
      (behindExitX (behindExitX besideOwnHistory), none) := by
  have hscript : file besideOwnHistory.session.world = .ok (Utf8.encode "exit x\n".toList) :=
    hread (by decide +kernel)
  have hgrown : file (behindExitX besideOwnHistory).session.world =
      .ok (Utf8.encode "exit x\nexit x\n".toList) := hread (by decide +kernel)
  have hshortened : file (behindExitX (behindExitX besideOwnHistory)).session.world =
      .ok (Utf8.encode "exit x\n".toList) := hread (by decide +kernel)
  -- The block that ends the first line ends with it, so the second line is fetched from the script
  -- as it has grown by the record of the first.
  have hfirst : Line.Cursor.start.next? (7 + maxGrowth) (file besideOwnHistory.session.world) =
      .ok (some (Utf8.encode "exit x".toList, { offset := 7, held := [] })) := by
    rw [hscript]
    rfl
  have hsecond : Line.Cursor.next? (7 + maxGrowth) { offset := 7, held := [] }
      (file (behindExitX besideOwnHistory).session.world) =
        .ok (some (Utf8.encode "exit x".toList, { offset := 14, held := [] })) := by
    rw [hgrown]
    rfl
  have hend : Line.Cursor.next? (7 + maxGrowth) { offset := 14, held := [] }
      (file (behindExitX (behindExitX besideOwnHistory)).session.world) = .ok none := by
    rw [hshortened]
    rfl
  rw [runFile_of_some hfirst, Utf8.decodeLossy_encode,
    runLine_exit_x (by decide) (by decide +kernel), andThen, runFile_of_some hsecond,
    Utf8.decodeLossy_encode, runLine_exit_x (by decide +kernel) (by decide +kernel), andThen]
  exact runFile_of_none hend

/-- A script that is the history file of its own run grows by the lines that are run, and these are
run again. -/
theorem runScript_own_history :
    let shell := besideScript (History.new (some "/s") 1 .eachLine) "exit x\n"
    let mask := Host.rootMask isName_s 2
    shell.session.line = 0 ∧ shell.session.leaving = none ∧ shell.session.output.Unfailing ∧
      shell.session.history.HiddenBy mask ∧ mask.alike shell.session.world shell.session.world ∧
      (∀ command ∈ shell.commands (Host.platform 2) ["exit x".toList], mask.Spares command) ∧
      (Host.platform 2).read shell.session.world "/s" = .ok (Utf8.encode "exit x\n".toList) ∧
      (shell.runReader (Host.platform 2)
          (Utf8.encode "exit x\n".toList)).1.session.output.reports =
        ["hsh: 1: exit: Illegal number: x".toList] ∧
      (shell.runScript (Host.platform 2) "/s").1.session.output.reports =
        ["hsh: 1: exit: Illegal number: x".toList, "hsh: 2: exit: Illegal number: x".toList] := by
  intro shell mask
  have hnode : shell.session.world.files.node? [['s']] =
      some (.file (Utf8.encode "exit x\n".toList) false) := by decide +kernel
  have hholds : Host.HoldsInRoot ['s'] shell.session.world (some (Utf8.encode "exit x\n".toList)) :=
    ⟨false, hnode⟩
  obtain ⟨file, hopened, hread⟩ := exists_openFile_root isName_s hnode
  have hopen : (Host.platform 2).openFile shell.session.world "/s" = .ok file := hopened
  have hscript : (shell.runScript (Host.platform 2) "/s").1 =
      behindExitX (behindExitX shell) := by
    have hsize : (Utf8.encode "exit x\n".toList).length = 7 := by decide +kernel
    have hfile : shell.runFile (Host.platform 2) file (7 + maxGrowth) .start = _ :=
      runFile_own_history hread
    rw [runScript, hopen]
    simp only [hread hnode, Except.toOption, Option.getD_some, hsize, hfile, fst_statusOf]
    rfl
  have hreader : (shell.runReader (Host.platform 2)
      (Utf8.encode "exit x\n".toList)).1 = behindExitX shell := by
    have hlines : (Line.ofBytes (Utf8.encode "exit x\n".toList)).map Utf8.decodeLossy =
        ["exit x".toList] := by decide +kernel
    have hline : shell.runLine (Host.platform 2) "exit x" = _ :=
      runLine_exit_x (by decide) (by decide +kernel)
    rw [runReader, hlines, fst_statusOf, fst_runLines_singleton, hline]
  rw [hscript, hreader]
  refine ⟨rfl, rfl, ⟨rfl, rfl⟩, fun path hpath => (Option.some.inj hpath).symm,
    ⟨rfl, fun _ _ => rfl, ⟨_, hholds⟩, ⟨_, hholds⟩⟩,
    spares_commands_exit_x isName_s (by decide), ?_, by decide +kernel, by decide +kernel⟩
  rw [Platform.read, hopen]
  simp only [hread hnode, Except.mapError]

end CommandShell.Shell
