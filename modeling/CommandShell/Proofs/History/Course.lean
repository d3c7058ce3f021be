import CommandShell.Proofs.History.Pushing
import CommandShell.Proofs.Host.RootFile

/-!
# The course of a history

A history is read from its file, takes up one line after the other, and is finished. Line by line or
at the end, the file comes to hold what the history keeps: at the end always, and line by line as
long as no push was refused that no rewriting has made up for.
-/

namespace CommandShell

variable {World : Type}

/-- A history in use, with the world around its file. -/
structure Course (World : Type) where
  world : World
  history : History
  /-- The number of operations that failed. -/
  failures : Nat := 0
  /-- Whether a push failed since the file was last written anew. -/
  overdue : Bool := false

namespace Course

variable (platform : Platform World)

def start (path : Path) (limit : Nat) (sync : History.Sync) (world : World) : Course World :=
  { world, history := ((History.new (some path) limit sync).load platform world).1 }

def push (course : Course World) (line : Text) : Course World :=
  match course.history.push platform course.world line with
  | (world, history, .ok ()) =>
    { course with world, history, overdue := course.overdue && !course.history.savesOnAppend }
  | (world, history, .error _) =>
    { world, history, failures := course.failures + 1, overdue := true }

def pushAll (course : Course World) (lines : List Text) : Course World :=
  lines.foldl (push platform) course

def finish (course : Course World) : Course World :=
  match course.history.finish platform course.world with
  | (world, history, .ok ()) => { course with world, history }
  | (world, history, .error _) =>
    { course with world, history, failures := course.failures + 1 }

def whole (path : Path) (limit : Nat) (sync : History.Sync) (world : World) (lines : List Text) :
    Course World :=
  ((start platform path limit sync world).pushAll platform lines).finish platform

theorem pushAll_concat (course : Course World) (lines : List Text) (line : Text) :
    course.pushAll platform (lines ++ [line]) =
      (course.pushAll platform lines).push platform line :=
  List.foldl_concat _ _ _ _

theorem push_of_ok {course : Course World} {line : Text} {after : World} {next : History}
    (hpush : course.history.push platform course.world line = (after, next, .ok ())) :
    course.push platform line =
      { course with
        world := after
        history := next
        overdue := course.overdue && !course.history.savesOnAppend } := by
  rw [push, hpush]

theorem push_of_error {course : Course World} {line : Text} {after : World} {next : History}
    {fault : History.Fault}
    (hpush : course.history.push platform course.world line = (after, next, .error fault)) :
    course.push platform line =
      { world := after, history := next, failures := course.failures + 1, overdue := true } := by
  rw [push, hpush]

theorem failures_le_push (course : Course World) (line : Text) :
    course.failures ≤ (course.push platform line).failures := by
  unfold push
  split
  · exact Nat.le_refl _
  · exact Nat.le_succ _

theorem failures_le_pushAll (course : Course World) (lines : List Text) :
    course.failures ≤ (course.pushAll platform lines).failures := by
  induction lines generalizing course with
  | nil => exact Nat.le_refl _
  | cons line rest ih => exact Nat.le_trans (failures_le_push platform course line) (ih _)

theorem finish_eachLine {course : Course World} (hsync : course.history.sync = .eachLine) :
    course.finish platform = course := by
  rw [finish, History.finish, hsync]

theorem push_onExit {course : Course World} (hsync : course.history.sync = .onExit) {line : Text}
    (hfilled : line ≠ []) :
    course.push platform line =
      { course with
        history := course.history.record line
        overdue := course.overdue && !course.history.savesOnAppend } := by
  rw [push, History.push, List.isEmpty_eq_false_iff.mpr hfilled, hsync]
  rfl

end Course

namespace History

open Course

variable {platform : Platform World} {path : Path} {limit : Nat} {sync : Sync}
  {holds : World → Option Bytes → Prop} {texts lines : List Text} {content? : Option Bytes}
  {course : Course World}

/-- What holds between two operations. A file that is written line by line is in step with the
history, or it lacks a line that was refused. -/
structure Sound (holds : World → Option Bytes → Prop) (path : Path) (limit : Nat) (sync : Sync)
    (texts : List Text) (content? : Option Bytes) (course : Course World) : Prop where
  holds : holds course.world content?
  keeps : Keeps path limit sync texts course.history
  tracks : sync = .eachLine → Tracks course.history (content?.getD [])
  inStep : sync = .eachLine → course.overdue = false → InStep course.history (content?.getD [])
  behind : course.overdue = true →
    min limit ((Record.parse (content?.getD [])).length + 1) ≤ texts.length

theorem sound_start (hlimit : 1 ≤ limit) (hreads : platform.Reads path holds) {world : World}
    (hholds : holds world content?)
    (hend : sync = .eachLine → Record.Terminated (content?.getD [])) :
    Sound holds path limit sync (Record.parse (content?.getD [])) content?
      (start platform path limit sync world) := by
  have hhistory : (start platform path limit sync world).history =
      (new (some path) limit sync).loaded (Record.parse (content?.getD [])) :=
    congrArg Prod.fst (load_of_reads hreads hholds limit sync)
  refine ⟨hholds, hhistory ▸ keeps_loaded hlimit path sync _, fun hsync => ?_, fun _ _ => ?_, ?_⟩
  · exact hhistory ▸ tracks_loaded (hend hsync) _
  · exact hhistory ▸ inStep_loaded _ _
  · exact fun hoverdue => absurd hoverdue Bool.false_ne_true

theorem Sound.resume (hsound : Sound holds path limit sync texts content? course)
    {later : Course World} (hholds : holds later.world content?)
    (hhistory : later.history = course.history) (hoverdue : later.overdue = course.overdue) :
    Sound holds path limit sync texts content? later where
  holds := hholds
  keeps := hhistory ▸ hsound.keeps
  tracks := hhistory ▸ hsound.tracks
  inStep := hhistory ▸ hoverdue ▸ hsound.inStep
  behind := hoverdue ▸ hsound.behind

theorem InStep.length_eq {history : History} {content : Bytes}
    (hkeeps : Keeps path limit sync texts history) (hstep : InStep history content) :
    min limit (Record.parse content).length = min limit texts.length := by
  rw [← hkeeps.length_entries, ← length_lines, ← hstep, length_newest, hkeeps.limit_eq]

theorem Sound.push_onExit (hlimit : 1 ≤ limit)
    (hsound : Sound holds path limit .onExit texts content? course) {line : Text}
    (hline : Recordable line) :
    Sound holds path limit .onExit (texts ++ [line]) content? (course.push platform line) := by
  rw [Course.push_onExit platform hsound.keeps.sync_eq hline.filled]
  refine ⟨hsound.holds, hsound.keeps.record hlimit hline, nofun, nofun, fun hoverdue => ?_⟩
  have hbehind := hsound.behind (Bool.and_eq_true_iff.mp hoverdue).1
  rw [List.length_append]
  omega

theorem Keeps.savesOnAppend_eq {history : History}
    (hkeeps : Keeps path limit sync texts history) :
    history.savesOnAppend = decide (limit ≤ history.persisted) := by
  rw [savesOnAppend, hkeeps.replaces, Bool.or_false, hkeeps.limit_eq]

theorem Keeps.length_parse_saved {history : History}
    (hkeeps : Keeps path limit sync texts history) :
    (Record.parse (Update.bytes { replaces := true, lines := history.lines })).length ≤ limit := by
  rw [Record.parse_bytes hkeeps.recordable_lines, length_lines, hkeeps.length_entries]
  exact Nat.min_le_left _ _

theorem Tracks.length_parse_appended {history : History} {content : Bytes}
    (htracks : Tracks history content) {line : Text} (hline : Recordable line) :
    (Record.parse (content ++ Update.bytes { replaces := false, lines := [line] })).length =
      (Record.parse content).length + 1 := by
  rw [← (htracks.appended hline).persisted, ← htracks.persisted]
  rfl

variable {line : Text} {after : World} {failures : Nat}

theorem Sound.rewritten (hlimit : 1 ≤ limit)
    (hsound : Sound holds path limit .eachLine texts content? course) (hline : Recordable line)
    (hafter : holds after (some
      (Update.bytes { replaces := true, lines := (course.history.record line).lines }))) :
    Sound holds path limit .eachLine (texts ++ [line])
      (some (Update.bytes { replaces := true, lines := (course.history.record line).lines }))
      { world := after, history := (course.history.record line).saved, failures,
        overdue := false } := by
  have hrecord := hsound.keeps.record hlimit hline
  refine ⟨hafter, hrecord.saved, fun _ => hrecord.tracks_saved, fun _ _ => hrecord.inStep_saved, ?_⟩
  intro hoverdue
  cases hoverdue

theorem Sound.appended (hlimit : 1 ≤ limit)
    (hsound : Sound holds path limit .eachLine texts content? course) (hline : Recordable line)
    (hafter : holds after (some
      (content?.getD [] ++ Update.bytes { replaces := false, lines := [line] }))) :
    Sound holds path limit .eachLine (texts ++ [line])
      (some (content?.getD [] ++ Update.bytes { replaces := false, lines := [line] }))
      { course with world := after, history := (course.history.record line).appended } where
  holds := hafter
  keeps := (hsound.keeps.record hlimit hline).appended
  tracks _ := (hsound.tracks rfl).appended hline
  inStep _ hoverdue := by
    have hbound : 1 ≤ course.history.limit := hsound.keeps.limit_eq.symm ▸ hlimit
    exact (hsound.inStep rfl hoverdue).appended hbound (hsound.tracks rfl) hline
  behind hoverdue := by
    have hbehind := hsound.behind hoverdue
    rw [Option.getD_some, (hsound.tracks rfl).length_parse_appended hline, List.length_append,
      List.length_singleton]
    omega

theorem Sound.refused (hlimit : 1 ≤ limit)
    (hsound : Sound holds path limit .eachLine texts content? course) (hline : Recordable line)
    (hafter : holds after content?) :
    Sound holds path limit .eachLine (texts ++ [line]) content?
      { world := after, history := course.history.record line, failures, overdue := true } where
  holds := hafter
  keeps := hsound.keeps.record hlimit hline
  tracks _ := ⟨(hsound.tracks rfl).terminated, (hsound.tracks rfl).persisted⟩
  inStep _ hoverdue := by
    cases hoverdue
  behind _ := by
    rw [List.length_append, List.length_singleton]
    -- The line is either the first one that is missing in the file, or one more of them.
    by_cases hearlier : course.overdue = true
    · have hbehind := hsound.behind hearlier
      omega
    · have hstep := (hsound.inStep rfl (Bool.eq_false_iff.mpr hearlier)).length_eq
        hsound.keeps
      omega

theorem Sound.push_eachLine (hlimit : 1 ≤ limit) (hmay : platform.MayStore path holds)
    (hsound : Sound holds path limit .eachLine texts content? course) (hline : Recordable line) :
    ∃ content?', Sound holds path limit .eachLine (texts ++ [line]) content?'
        (course.push platform line) ∧
      ((course.push platform line).failures = course.failures →
        ∃ content, content?' = some content ∧ (Record.parse content).length ≤ limit) := by
  rcases hpush : course.history.push platform course.world line with ⟨after, next, outcome⟩
  have hpushed := pushed_of_push hmay hsound.holds hsound.keeps.path_eq hsound.keeps.sync_eq
    hsound.keeps.replaces hline.filled hpush
  have hsaves := hsound.keeps.savesOnAppend_eq
  have hbound := hsound.keeps.limit_eq
  cases hpushed with
  | rewritten hfull hafter =>
      rw [push_of_ok platform hpush, hsaves, decide_eq_true (hbound ▸ hfull), Bool.not_true,
        Bool.and_false]
      refine ⟨_, hsound.rewritten hlimit hline hafter, fun _ => ⟨_, rfl, ?_⟩⟩
      exact (hsound.keeps.record hlimit hline).length_parse_saved
  | appended hroom hafter =>
      rw [push_of_ok platform hpush, hsaves, decide_eq_false (hbound ▸ Nat.not_le.mpr hroom),
        Bool.not_false, Bool.and_true]
      refine ⟨_, hsound.appended hlimit hline hafter, fun _ => ⟨_, rfl, ?_⟩⟩
      have htracks := hsound.tracks rfl
      rw [htracks.length_parse_appended hline, ← htracks.persisted, ← hbound]
      exact hroom
  | refused hafter =>
      rw [push_of_error platform hpush]
      refine ⟨content?, hsound.refused hlimit hline hafter, fun hfailures => ?_⟩
      exact absurd hfailures (Nat.succ_ne_self _)

theorem Sound.push (hlimit : 1 ≤ limit) (hmay : platform.MayStore path holds)
    (hsound : Sound holds path limit sync texts content? course) {line : Text}
    (hline : Recordable line) :
    ∃ content?', Sound holds path limit sync (texts ++ [line]) content?'
      (course.push platform line) := by
  cases sync with
  | onExit => exact ⟨content?, hsound.push_onExit hlimit hline⟩
  | eachLine =>
      obtain ⟨content?', hnext, -⟩ := hsound.push_eachLine hlimit hmay hline
      exact ⟨content?', hnext⟩

theorem Sound.pushAll (hlimit : 1 ≤ limit) (hmay : platform.MayStore path holds)
    (hsound : Sound holds path limit sync texts content? course)
    (hlines : ∀ line ∈ lines, Recordable line) :
    ∃ content?', Sound holds path limit sync (texts ++ lines) content?'
      (course.pushAll platform lines) := by
  induction lines generalizing texts content? course with
  | nil => exact ⟨content?, by rwa [List.append_nil]⟩
  | cons line rest ih =>
      obtain ⟨hline, hrest⟩ := List.forall_mem_cons.mp hlines
      obtain ⟨content?', hnext⟩ := hsound.push hlimit hmay hline
      obtain ⟨content?'', hlast⟩ := ih hnext hrest
      exact ⟨content?'', by rwa [List.append_assoc, List.singleton_append] at hlast⟩

/-! ### Where every change is made -/

theorem Sound.failures_push (hstores : platform.Stores path holds)
    (hsound : Sound holds path limit sync texts content? course) (line : Text) :
    (course.push platform line).failures = course.failures ∧
      (course.overdue = false → (course.push platform line).overdue = false) := by
  obtain ⟨after, next, content?', hpush, -, -⟩ :=
    push_of_stores hstores hsound.holds hsound.keeps.path_eq line
  rw [Course.push, hpush]
  refine ⟨rfl, fun hearlier => ?_⟩
  simp [hearlier]

theorem Sound.failures_pushAll (hlimit : 1 ≤ limit) (hstores : platform.Stores path holds)
    (hsound : Sound holds path limit sync texts content? course)
    (hlines : ∀ line ∈ lines, Recordable line) :
    (course.pushAll platform lines).failures = course.failures ∧
      (course.overdue = false → (course.pushAll platform lines).overdue = false) := by
  induction lines generalizing texts content? course with
  | nil => exact ⟨rfl, id⟩
  | cons line rest ih =>
      obtain ⟨hline, hrest⟩ := List.forall_mem_cons.mp hlines
      obtain ⟨content?', hnext⟩ := hsound.push hlimit hstores.mayStore hline
      obtain ⟨hfailures, hoverdue⟩ := hsound.failures_push hstores line
      obtain ⟨hfailures', hoverdue'⟩ := ih hnext hrest
      exact ⟨hfailures'.trans hfailures, hoverdue' ∘ hoverdue⟩

theorem finish_onExit (hstores : platform.Stores path holds)
    (hholds : holds course.world content?) (hpath : course.history.path? = some path)
    (hsync : course.history.sync = .onExit) :
    ∃ after, course.finish platform =
        { course with world := after, history := course.history.saved } ∧
      holds after (some (course.history.saveUpdate.onto content?)) := by
  obtain ⟨after, hsave, hafter⟩ := save_of_stores hstores hholds hpath
  refine ⟨after, ?_, hafter⟩
  rw [Course.finish, History.finish, hsync]
  simp only [hsave]

theorem Sound.finish (hstores : platform.Stores path holds)
    (hsound : Sound holds path limit sync texts content? course)
    (hoverdue : course.overdue = false) :
    (course.finish platform).failures = course.failures ∧
      ∃ content?', holds (course.finish platform).world content?' ∧
        Keeps path limit sync texts (course.finish platform).history ∧
        InStep (course.finish platform).history (content?'.getD []) := by
  cases sync with
  | eachLine =>
      rw [finish_eachLine platform hsound.keeps.sync_eq]
      exact ⟨rfl, content?, hsound.holds, hsound.keeps, hsound.inStep rfl hoverdue⟩
  | onExit =>
      obtain ⟨after, hfinish, hafter⟩ :=
        finish_onExit hstores hsound.holds hsound.keeps.path_eq hsound.keeps.sync_eq
      have hupdate : course.history.saveUpdate =
          { replaces := true, lines := course.history.lines } := by
        rw [saveUpdate, hsound.keeps.replaces]
        rfl
      rw [hupdate] at hafter
      rw [hfinish]
      exact ⟨rfl, _, hafter, hsound.keeps.saved, hsound.keeps.inStep_saved⟩

/-! ### Line by line and at the end -/

theorem whole_of_stores (hlimit : 1 ≤ limit) (hstores : platform.Stores path holds)
    {world : World} (hholds : holds world content?) (hend : Record.Terminated (content?.getD []))
    (hlines : ∀ line ∈ lines, Recordable line) (sync mode : Sync) :
    let used := whole platform path limit sync world lines
    let fresh := (new (some path) limit mode).load platform used.world
    used.failures = 0 ∧
      used.history.entries = number (newest limit (Record.parse (content?.getD []) ++ lines)) ∧
      fresh.2 = .ok used.history.entries.length ∧ fresh.1.entries = used.history.entries := by
  have hstart : Sound holds path limit sync (Record.parse (content?.getD [])) content?
      (start platform path limit sync world) :=
    sound_start hlimit hstores.toReads hholds fun _ => hend
  obtain ⟨_, hsound⟩ := hstart.pushAll hlimit hstores.mayStore hlines
  obtain ⟨hfailures, hoverdue⟩ := hstart.failures_pushAll hlimit hstores hlines
  obtain ⟨hfinished, content?', hafter, hkeeps, hstep⟩ := hsound.finish hstores (hoverdue rfl)
  exact ⟨hfinished.trans hfailures, hkeeps.entries,
    load_of_inStep hstores.toReads hkeeps hafter hstep mode hlimit⟩

theorem exists_read_eachLine_le (hlimit : 1 ≤ limit) (hstores : platform.Stores path holds)
    {world : World} (hholds : holds world content?) (hend : Record.Terminated (content?.getD []))
    (hlines : ∀ line ∈ lines, Recordable line) (hfilled : lines ≠ []) :
    ∃ content,
      platform.read ((start platform path limit .eachLine world).pushAll platform lines).world
        path = .ok content ∧
      (Record.parse content).length ≤ limit := by
  rcases List.eq_nil_or_concat lines with rfl | ⟨earlier, line, rfl⟩
  · exact absurd rfl hfilled
  rw [List.concat_eq_append] at hlines ⊢
  obtain ⟨hearlier, hlast⟩ := List.forall_mem_append.mp hlines
  obtain ⟨_, hsound⟩ := (sound_start hlimit hstores.toReads hholds fun _ => hend).pushAll hlimit
    hstores.mayStore hearlier
  -- The last push alone decides: behind it the file is what that one left.
  obtain ⟨_, hnext, hbound⟩ :=
    hsound.push_eachLine hlimit hstores.mayStore (hlast line (List.mem_singleton_self line))
  obtain ⟨content, rfl, hlength⟩ := hbound (hsound.failures_push hstores line).1
  rw [pushAll_concat]
  exact ⟨content, hstores.read hnext.holds, hlength⟩

/-- Written line by line or at the end, the file brings back what the history kept; and line by line
it never holds more than that. -/
theorem load_eachLine_eq_onExit (hlimit : 1 ≤ limit) (hstores : platform.Stores path holds)
    {world : World} (hholds : holds world content?) (hend : Record.Terminated (content?.getD []))
    (hlines : ∀ line ∈ lines, Recordable line) (mode : Sync) :
    let used := fun sync => whole platform path limit sync world lines
    let fresh := fun sync => (new (some path) limit mode).load platform (used sync).world
    ((fresh .eachLine).2 = (fresh .onExit).2 ∧
        (fresh .eachLine).1.entries = (fresh .onExit).1.entries) ∧
      (∀ sync, (used sync).failures = 0 ∧
        (fresh sync).2 = .ok (used sync).history.entries.length ∧
        (fresh sync).1.entries = (used sync).history.entries) ∧
      ∀ front, front <+: lines → front ≠ [] → ∃ content,
        platform.read ((start platform path limit .eachLine world).pushAll platform front).world
            path = .ok content ∧
          (Record.parse content).length ≤ limit := by
  intro used fresh
  have hwhole := fun sync => whole_of_stores hlimit hstores hholds hend hlines sync mode
  obtain ⟨-, hline, hcountLine, hfreshLine⟩ := hwhole .eachLine
  obtain ⟨-, hexit, hcountExit, hfreshExit⟩ := hwhole .onExit
  refine ⟨⟨?_, ?_⟩, fun sync => ?_, fun front hfront hfilled => ?_⟩
  · rw [hcountLine, hcountExit, hline, hexit]
  · rw [hfreshLine, hfreshExit, hline, hexit]
  · obtain ⟨hfailures, -, hcount, hfresh⟩ := hwhole sync
    exact ⟨hfailures, hcount, hfresh⟩
  · exact exists_read_eachLine_le hlimit hstores hholds hend
      (fun line hline => hlines line (hfront.subset hline)) hfilled

theorem load_eachLine_eq_onExit_full :
    let world := Host.bare.put [['h']] (.file (Utf8.encode "a\n\nb\nc\n".toList) false)
    let lines := ["d".toList, "e".toList]
    let used := fun sync => whole (Host.platform 2) "/h" 2 sync world lines
    let fresh := fun sync => (new (some "/h".toList) 2 .onExit).load (Host.platform 2)
      (used sync).world
    (1 ≤ 2 ∧ (Host.platform 2).Stores "/h" (Host.HoldsInRoot ['h']) ∧
      Host.HoldsInRoot ['h'] world (some (Utf8.encode "a\n\nb\nc\n".toList)) ∧
      Record.Terminated (Utf8.encode "a\n\nb\nc\n".toList) ∧ ∀ line ∈ lines, Recordable line) ∧
    ((fresh .eachLine).2 = (fresh .onExit).2 ∧
        (fresh .eachLine).1.entries = (fresh .onExit).1.entries) ∧
      (∀ sync, (used sync).failures = 0 ∧
        (fresh sync).2 = .ok (used sync).history.entries.length ∧
        (fresh sync).1.entries = (used sync).history.entries) ∧
      ∀ front, front <+: lines → front ≠ [] → ∃ content,
        (Host.platform 2).read
            ((start (Host.platform 2) "/h" 2 .eachLine world).pushAll (Host.platform 2) front).world
            "/h" = .ok content ∧
          (Record.parse content).length ≤ 2 := by
  have hname : Host.FileSystem.IsName ['h'] := ⟨by decide, by decide, by decide, by decide⟩
  have hstores : (Host.platform 2).Stores "/h" (Host.HoldsInRoot ['h']) := Host.stores_root hname 2
  have hholds : Host.HoldsInRoot ['h']
      (Host.bare.put [['h']] (.file (Utf8.encode "a\n\nb\nc\n".toList) false))
      (some (Utf8.encode "a\n\nb\nc\n".toList)) := ⟨false, rfl⟩
  have hlines : ∀ line ∈ ["d".toList, "e".toList], Recordable line := by
    simp only [recordable_iff]
    decide
  have hend : Record.Terminated (Utf8.encode "a\n\nb\nc\n".toList) := by decide +kernel
  exact ⟨⟨by decide, hstores, hholds, hend, hlines⟩,
    load_eachLine_eq_onExit (by decide) hstores hholds hend hlines .onExit⟩

end History

end CommandShell
