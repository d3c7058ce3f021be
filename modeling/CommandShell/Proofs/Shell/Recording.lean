import CommandShell.Proofs.History.Records
import CommandShell.Proofs.Session.Frame

/-!
# What a run takes up

Each line that is run brings its accepted part into the history before its first command, the line
that leaves the session among them. Lines behind that one are not run and bring nothing.
-/

namespace CommandShell.Shell

variable {World : Type} (platform : Platform World)

/-- The lines that are run, the one that leaves the session being the last. -/
def executed (shell : Shell World) : List Text → List Text
  | [] => []
  | line :: rest =>
    line ::
      match shell.runLine platform line with
      | (_, some _) => []
      | (shell, none) => shell.executed rest

def taken (shell : Shell World) (lines : List Text) : List Text :=
  (shell.executed platform lines).filterMap Line.accepted?

theorem executed_cons_of_leaves {shell after : Shell World} {line : Text} {code : Status}
    (hrun : shell.runLine platform line = (after, some code)) (rest : List Text) :
    shell.executed platform (line :: rest) = [line] := by
  rw [executed, hrun]

theorem executed_cons_of_stays {shell after : Shell World} {line : Text}
    (hrun : shell.runLine platform line = (after, none)) (rest : List Text) :
    shell.executed platform (line :: rest) = line :: after.executed platform rest := by
  rw [executed, hrun]

theorem filterMap_accepted?_singleton (line : Text) :
    [line].filterMap Line.accepted? = (Line.accepted? line).toList := by
  cases haccepted : Line.accepted? line <;> simp [haccepted]

theorem taken_cons_of_leaves {shell after : Shell World} {line : Text} {code : Status}
    (hrun : shell.runLine platform line = (after, some code)) (rest : List Text) :
    shell.taken platform (line :: rest) = (Line.accepted? line).toList := by
  rw [taken, executed_cons_of_leaves platform hrun, filterMap_accepted?_singleton]

theorem taken_cons_of_stays {shell after : Shell World} {line : Text}
    (hrun : shell.runLine platform line = (after, none)) (rest : List Text) :
    shell.taken platform (line :: rest) =
      (Line.accepted? line).toList ++ after.taken platform rest := by
  rw [taken, executed_cons_of_stays platform hrun, ← List.singleton_append, List.filterMap_append,
    filterMap_accepted?_singleton, taken]

theorem prefix_executed (shell : Shell World) (lines : List Text) :
    shell.executed platform lines <+: lines := by
  induction lines generalizing shell with
  | nil => exact List.prefix_rfl
  | cons line rest ih =>
      rw [executed]
      refine (List.prefix_cons_inj line).mpr ?_
      split
      · exact List.nil_prefix
      · exact ih _

theorem taken_cons_of_blank (shell : Shell World) {line text : Text}
    (haccepted : Line.accepted? line = some text) {rest : List Text}
    (hrest : ∀ later ∈ rest, Line.accepted? later = none) :
    shell.taken platform (line :: rest) = [text] := by
  rw [taken, executed, List.filterMap_cons_some haccepted, List.cons_inj_right]
  split
  · rfl
  · next after _ =>
    refine List.filterMap_eq_nil_iff.mpr fun later hlater => ?_
    exact hrest later ((prefix_executed platform after rest).subset hlater)

theorem recordable_of_mem_taken {shell : Shell World} {content : Bytes} {text : Text}
    (htext : text ∈ shell.taken platform ((Line.ofBytes content).map Utf8.decodeLossy)) :
    History.Recordable text := by
  obtain ⟨line, hline, haccepted⟩ := List.mem_filterMap.mp htext
  obtain ⟨piece, hpiece, rfl⟩ :=
    List.mem_map.mp ((prefix_executed platform shell _).subset hline)
  exact History.recordable_of_accepted? (History.feed_not_mem_of_mem_ofBytes hpiece) haccepted

variable {platform} {kept : World → Prop}

theorem fst_statusOf (outcome : Shell World × Option Status) :
    (statusOf outcome).1 = outcome.1 := by
  obtain ⟨after, status⟩ := outcome
  cases status <;> rfl

theorem remember_onExit {session : Session World} (hsync : session.history.sync = .onExit)
    {line text : Text} (haccepted : Line.accepted? line = some text) :
    remember platform session text = { session with history := session.history.record text } := by
  obtain ⟨-, hne, -⟩ := Line.prefix_of_accepted? haccepted
  have hfilled : text.isEmpty = false := List.isEmpty_eq_false_iff.mpr hne
  simp [remember, History.push, hfilled, hsync]

theorem runLine_onExit (hspares : platform.Spares kept) {shell : Shell World}
    (hsync : shell.session.history.sync = .onExit) (line : Text) :
    (shell.runLine platform line).1.session.history =
        (Line.accepted? line).toList.foldl History.record shell.session.history ∧
      (kept shell.session.world → kept (shell.runLine platform line).1.session.world) := by
  unfold runLine executeLine
  cases haccepted : Line.accepted? line with
  | none => exact ⟨rfl, id⟩
  | some text =>
      have hcounted : shell.countLine.session.history.sync = .onExit := hsync
      have hframe := frame_drain hspares
        (remember platform shell.countLine.session text) (Chain.split text)
      rw [remember_onExit hcounted haccepted] at hframe
      simp only [if_true, remember_onExit hcounted haccepted]
      exact ⟨hframe.history, hframe.world⟩

/-- A line of a single segment that names no alias is recorded and is one command. -/
theorem runLine_of_plain (platform : Platform World) {shell : Shell World}
    (hsync : shell.session.history.sync = .onExit) {line text : Text}
    (haccepted : Line.accepted? line = some text) (hplain : Chain.Plain text)
    (hname : shell.session.aliases.get? (Alias.firstWord text).1 = none)
    {leaving : Option Status}
    (hleaving : (Session.runSegment platform
      { shell.countLine.session with history := shell.session.history.record text }
      { text, operator := .start }).leaving = leaving) :
    shell.runLine platform line =
      ({ session := Session.runSegment platform
          { shell.countLine.session with history := shell.session.history.record text }
          { text, operator := .start } }, leaving) := by
  have hcounted : shell.countLine.session.history.sync = .onExit := hsync
  rw [runLine, executeLine_of_plain platform shell.countLine haccepted hplain hname]
  simp only [if_true]
  rw [remember_onExit hcounted haccepted]
  exact congrArg _ hleaving

/-- A run that writes nothing until its end only adds to the history. -/
theorem runLines_onExit (hspares : platform.Spares kept) {shell : Shell World}
    (hsync : shell.session.history.sync = .onExit) (lines : List Text) :
    (shell.runLines platform lines).1.session.history =
        (shell.taken platform lines).foldl History.record shell.session.history ∧
      (kept shell.session.world → kept (shell.runLines platform lines).1.session.world) := by
  induction lines generalizing shell with
  | nil => exact ⟨rfl, id⟩
  | cons line rest ih =>
      obtain ⟨hhistory, hworld⟩ := runLine_onExit hspares hsync line
      rw [runLines]
      cases hrun : shell.runLine platform line with
      | mk after outcome =>
          rw [hrun] at hhistory hworld
          cases outcome with
          | some code =>
              rw [taken_cons_of_leaves platform hrun]
              exact ⟨hhistory, hworld⟩
          | none =>
              have hsyncAfter : after.session.history.sync = .onExit := by
                rw [hhistory]
                cases Line.accepted? line <;> exact hsync
              obtain ⟨hrest, hworldRest⟩ := ih hsyncAfter
              refine ⟨?_, fun hkept => hworldRest (hworld hkept)⟩
              rw [taken_cons_of_stays platform hrun, List.foldl_append, ← hhistory]
              exact hrest

end CommandShell.Shell
