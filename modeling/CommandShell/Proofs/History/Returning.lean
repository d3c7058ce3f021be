import CommandShell.Proofs.History.OneFile
import CommandShell.Proofs.History.Regular
import CommandShell.Proofs.Line.Cutting
import CommandShell.Proofs.Line.Replaying

/-!
# Texts that hold line feeds

A line that is handed over by a call may hold line feeds, and so may what is accepted of it. It is
one entry of the history, and it is written as it is; the file is then cut at each of its line
feeds. The entries come back as they were exactly when none of them holds one.
-/

namespace CommandShell

variable {World : Type}

namespace Shell

/-- A line that is handed over by itself, in one of two ways. -/
inductive Call
  | line (text : Text)
  | command (text : Text)

def Call.text : Call → Text
  | .line text => text
  | .command text => text

def Call.accepted? (call : Call) : Option Text :=
  Line.accepted? call.text

variable (platform : Platform World)

def call (shell : Shell World) : Call → Shell World
  | .line text => (shell.runLine platform text).1
  | .command text => (shell.runCommand platform text).1

/-- Each call is made, also behind one that leaves the session. -/
def callAll (shell : Shell World) (calls : List Call) : Shell World :=
  calls.foldl (call platform) shell

theorem call_eq (shell : Shell World) (call : Call) :
    shell.call platform call = (shell.runLine platform call.text).1 := by
  cases call with
  | line text => rfl
  | command text => exact fst_statusOf _

end Shell

namespace History

/-! ### What is read of a text -/

namespace Record

/-- The records that a text is read as when it was written with a line feed behind it. -/
def ofText (text : Text) : List Text :=
  ((Text.pieces (· == '\n') text).map (Text.trimEnd Text.isLineEnd)).filter (!·.isEmpty)

theorem parse_encode_eq_ofText (text : Text) : parse (Utf8.encode text) = ofText text := by
  have hdecode : decode ∘ Utf8.encode = Text.trimEnd Text.isLineEnd := by
    funext piece
    rw [Function.comp_apply, decode, Utf8.decodeLossy_encode]
  rw [parse, Text.pieces_encode, List.map_map, hdecode, ofText]

theorem parse_bytes_eq_flatMap (replaces : Bool) (lines : List Text) :
    parse (Update.bytes { replaces, lines }) = lines.flatMap ofText := by
  induction lines with
  | nil => exact parse_nil
  | cons line rest ih =>
      rw [parse_bytes_cons, parse_encode_eq_ofText, ih, List.flatMap_cons]

theorem ofText_eq_singleton {text : Text} (htext : Recordable text) : ofText text = [text] := by
  rw [← parse_encode_eq_ofText, parse_encode htext]

theorem feed_not_mem_of_mem_ofText {text record : Text} (hrecord : record ∈ ofText text) :
    '\n' ∉ record := by
  rw [← parse_encode_eq_ofText] at hrecord
  exact (recordable_of_mem_parse hrecord).noFeed

/-- Nothing but a line feed changes a text on its way through the file. -/
theorem newest_flatMap_ofText_eq_self_iff {limit : Nat} {texts : List Text}
    (hlength : texts.length ≤ limit)
    (hrecordable : ∀ text ∈ texts, '\n' ∉ text → Recordable text) :
    newest limit (texts.flatMap ofText) = texts ↔ ∀ text ∈ texts, '\n' ∉ text := by
  constructor
  · intro hsame text htext
    rw [← hsame] at htext
    obtain ⟨_, -, hrecord⟩ := List.mem_flatMap.mp (mem_of_mem_newest htext)
    exact feed_not_mem_of_mem_ofText hrecord
  · intro hfeeds
    have hone : texts.flatMap ofText = texts.flatMap ([·]) :=
      List.flatMap_congr fun text htext =>
        ofText_eq_singleton (hrecordable text htext (hfeeds text htext))
    rw [hone, List.flatMap_singleton', newest_of_length_le hlength]

end Record

/-! ### What the file holds of any texts -/

variable {platform : Platform World} {path : Path} {limit : Nat} {sync : Sync}
  {holds : World → Option Bytes → Prop} {texts : List Text} {content? : Option Bytes}

section Mirrors

variable {history : History}

/-- The file is what a save would make of it. -/
structure Mirrors (history : History) (content : Bytes) : Prop where
  content_eq : content = Update.bytes { replaces := true, lines := history.lines }
  persisted_eq : history.persisted = history.lines.length

theorem Collects.mirrors_saved (hcollects : Collects path limit sync texts history) :
    Mirrors history.saved (Update.bytes { replaces := true, lines := history.lines }) where
  content_eq := rfl
  persisted_eq := by
    rw [History.saved, hcollects.replaces]
    exact (length_lines history).symm

/-- A window with room drops nothing, so a line behind the content keeps the file complete. -/
theorem Mirrors.appended (hlimit : 1 ≤ history.limit) {content : Bytes}
    (hmirrors : Mirrors history content) (hroom : history.persisted < history.limit)
    (line : Text) :
    Mirrors (history.record line).appended
      (content ++ Update.bytes { replaces := false, lines := [line] }) := by
  have hlines : (history.record line).appended.lines = history.lines ++ [line] := by
    have hlength : (history.lines ++ [line]).length ≤ history.limit := by
      rw [List.length_append, List.length_singleton, ← hmirrors.persisted_eq]
      exact hroom
    exact (lines_record hlimit line).trans (newest_of_length_le hlength)
  refine ⟨?_, ?_⟩
  · rw [hlines, Update.bytes_append, hmirrors.content_eq]
    rfl
  · rw [hlines, List.length_append, List.length_singleton, ← hmirrors.persisted_eq]
    rfl

end Mirrors

/-- What holds between two operations when no text is asked to be a record: a file that is written
line by line is complete. -/
structure Complete (holds : World → Option Bytes → Prop) (path : Path) (limit : Nat) (sync : Sync)
    (texts : List Text) (content? : Option Bytes) (course : Course World) : Prop where
  holds : holds course.world content?
  collects : Collects path limit sync texts course.history
  mirrors : sync = .eachLine → Mirrors course.history (content?.getD [])

theorem Complete.resume {course later : Course World}
    (hcomplete : Complete holds path limit sync texts content? course)
    (hholds : holds later.world content?) (hhistory : later.history = course.history) :
    Complete holds path limit sync texts content? later :=
  ⟨hholds, hhistory ▸ hcomplete.collects, hhistory ▸ hcomplete.mirrors⟩

theorem complete_new {world : World} (habsent : holds world none) (path : Path) (limit : Nat)
    (sync : Sync) :
    Complete holds path (max limit 1) sync [] none
      { world, history := new (some path) limit sync } := by
  have hentries : [] = number (newest (max limit 1) []) := by simp [newest, number]
  exact ⟨habsent, ⟨rfl, rfl, rfl, rfl, hentries⟩, fun _ => ⟨rfl, rfl⟩⟩

theorem Complete.push (hlimit : 1 ≤ limit) (hstores : platform.Stores path holds)
    {course : Course World} (hcomplete : Complete holds path limit sync texts content? course)
    {line : Text} (hfilled : line ≠ []) :
    ∃ content?', Complete holds path limit sync (texts ++ [line]) content?'
      (course.push platform line) := by
  obtain ⟨hholds, hcollects, hmirrors⟩ := hcomplete
  have hrecord := hcollects.record hlimit line
  cases sync with
  | onExit =>
      rw [Course.push_onExit platform hcollects.sync_eq hfilled]
      exact ⟨content?, hholds, hrecord, nofun⟩
  | eachLine =>
      obtain ⟨after, next, -, hpush, -, -⟩ := push_of_stores hstores hholds hcollects.path_eq line
      have hpushed := pushed_of_push hstores.mayStore hholds hcollects.path_eq hcollects.sync_eq
        hcollects.replaces hfilled hpush
      rw [Course.push_of_ok platform hpush]
      cases hpushed with
      | rewritten _ hafter => exact ⟨_, hafter, hrecord.saved, fun _ => hrecord.mirrors_saved⟩
      | appended hroom hafter =>
          have hbound : 1 ≤ course.history.limit := hcollects.limit_eq.symm ▸ hlimit
          exact ⟨_, hafter, hrecord.appended, fun _ => (hmirrors rfl).appended hbound hroom line⟩

theorem Complete.finish (hstores : platform.Stores path holds) {course : Course World}
    (hcomplete : Complete holds path limit sync texts content? course) :
    ∃ content?', holds (course.finish platform).world content?' ∧
      content?'.getD [] = Update.bytes { replaces := true, lines := newest limit texts } ∧
      (course.finish platform).history.entries = number (newest limit texts) := by
  obtain ⟨hholds, hcollects, hmirrors⟩ := hcomplete
  cases sync with
  | eachLine =>
      rw [Course.finish_eachLine platform hcollects.sync_eq, ← hcollects.lines]
      exact ⟨content?, hholds, (hmirrors rfl).content_eq, hcollects.lines ▸ hcollects.entries⟩
  | onExit =>
      obtain ⟨after, hfinish, hafter⟩ :=
        finish_onExit hstores hholds hcollects.path_eq hcollects.sync_eq
      have hupdate : course.history.saveUpdate =
          { replaces := true, lines := newest limit texts } := by
        rw [saveUpdate, hcollects.replaces, hcollects.lines]
        rfl
      rw [hupdate] at hafter
      rw [hfinish]
      exact ⟨_, hafter, rfl, hcollects.entries⟩

/-! ### Calls of a session -/

theorem Complete.call (hlimit : 1 ≤ limit) (hstores : platform.Stores path holds)
    (hspares : ∀ content?, platform.Spares (holds · content?)) {shell : Shell World}
    (hcomplete : Complete holds path limit sync texts content? shell.session.course)
    (call : Shell.Call) :
    ∃ content?', Complete holds path limit sync (texts ++ call.accepted?.toList) content?'
      (shell.call platform call).session.course := by
  rw [Shell.call_eq, Shell.runLine, Shell.executeLine, Shell.Call.accepted?]
  have hcounted : Complete holds path limit sync texts content? shell.countLine.session.course :=
    hcomplete
  cases haccepted : Line.accepted? call.text with
  | none => exact ⟨content?, by rwa [Option.toList_none, List.append_nil]⟩
  | some text =>
      obtain ⟨-, hfilled, -⟩ := Line.prefix_of_accepted? haccepted
      obtain ⟨content?', hnext⟩ := hcounted.push hlimit hstores hfilled
      rw [course_push_eq hstores hcounted.holds hcounted.collects.path_eq] at hnext
      have hframe := Shell.frame_drain (hspares content?')
        (Shell.remember platform shell.countLine.session text) (Chain.split text)
      exact ⟨content?', hnext.resume (hframe.world hnext.holds) hframe.history⟩

theorem Complete.callAll (hlimit : 1 ≤ limit) (hstores : platform.Stores path holds)
    (hspares : ∀ content?, platform.Spares (holds · content?)) {shell : Shell World}
    (hcomplete : Complete holds path limit sync texts content? shell.session.course)
    (calls : List Shell.Call) :
    ∃ content?', Complete holds path limit sync
      (texts ++ calls.filterMap Shell.Call.accepted?) content?'
      (shell.callAll platform calls).session.course := by
  induction calls generalizing shell texts content? with
  | nil => exact ⟨content?, by rwa [List.filterMap_nil, List.append_nil]⟩
  | cons call rest ih =>
      obtain ⟨content?', hnext⟩ := hcomplete.call hlimit hstores hspares call
      obtain ⟨content?'', hlast⟩ := ih hnext
      refine ⟨content?'', ?_⟩
      have htaken : (call :: rest).filterMap Shell.Call.accepted? =
          call.accepted?.toList ++ rest.filterMap Shell.Call.accepted? := by
        rw [List.filterMap_cons]
        cases call.accepted? <;> rfl
      rw [htaken, ← List.append_assoc]
      exact hlast

/-- What was accepted of the calls is the window of the session, and what is read of that is the
window of the next one. -/
theorem load_callAll (hstores : platform.Stores path holds)
    (hspares : ∀ content?, platform.Spares (holds · content?)) {shell : Shell World}
    (hhistory : shell.session.history = new (some path) limit sync)
    (habsent : holds shell.session.world none) (calls : List Shell.Call) (mode : Sync) :
    let final := ((shell.callAll platform calls).finish platform).session
    let fresh := (new (some path) limit mode).load platform final.world
    let kept := newest (max limit 1) (calls.filterMap Shell.Call.accepted?)
    final.history.entries = number kept ∧ fresh.2 = .ok fresh.1.entries.length ∧
      fresh.1.entries = number (newest (max limit 1) (kept.flatMap Record.ofText)) := by
  intro final fresh kept
  have hstart : Complete holds path (max limit 1) sync [] none shell.session.course :=
    (complete_new habsent path limit sync).resume habsent hhistory
  obtain ⟨_, hcalls⟩ := hstart.callAll (Nat.le_max_right limit 1) hstores hspares calls
  obtain ⟨content?, hholds, hcontent, hentries⟩ := hcalls.finish hstores
  rw [← world_finish] at hholds
  rw [← history_finish] at hentries
  have hfresh : fresh = _ := load_new hstores hholds limit mode
  rw [hcontent, Record.parse_bytes_eq_flatMap] at hfresh
  rw [hfresh]
  exact ⟨hentries, rfl, rfl⟩

/-- Whatever is called on a session whose history file was missing, the next one reads the file
record by record. It finds the entries of the first one exactly when none of them holds a line
feed: no other character in an accepted text is changed or taken for a separator. -/
theorem load_after_calls (hstores : platform.Stores path holds)
    (hspares : ∀ content?, platform.Spares (holds · content?)) {shell : Shell World}
    (hhistory : shell.session.history = new (some path) limit sync)
    (habsent : holds shell.session.world none) (calls : List Shell.Call) (mode : Sync) :
    let final := ((shell.callAll platform calls).finish platform).session
    let fresh := (new (some path) limit mode).load platform final.world
    let kept := newest (max limit 1) (calls.filterMap Shell.Call.accepted?)
    final.history.entries = number kept ∧ fresh.2 = .ok fresh.1.entries.length ∧
      fresh.1.entries = number (newest (max limit 1) (kept.flatMap Record.ofText)) ∧
      (fresh.1.entries = final.history.entries ↔ ∀ text ∈ kept, '\n' ∉ text) := by
  intro final fresh kept
  obtain ⟨hentries, hcount, hfresh⟩ :=
    load_callAll hstores hspares hhistory habsent calls mode
  refine ⟨hentries, hcount, hfresh, ?_⟩
  have hlength : kept.length ≤ max limit 1 := length_newest_le _ _
  have hrecordable : ∀ text ∈ kept, '\n' ∉ text → Recordable text := by
    intro text htext hfeed
    obtain ⟨call, -, haccepted⟩ := List.mem_filterMap.mp (mem_of_mem_newest htext)
    exact recordable_of_accepted? hfeed (Line.accepted?_of_accepted? haccepted).2
  rw [hfresh, hentries, number_injective.eq_iff]
  exact Record.newest_flatMap_ofText_eq_self_iff hlength hrecordable

/-- A text of two lines is one entry; read again it is two, and the older entry has no room. -/
theorem load_after_calls_bare :
    let platform := Host.platform 2
    let start := Shell.startOn Host.bare
    let shell : Shell Host :=
      { session := { start with history := new (some "/h".toList) 2 .eachLine } }
    let calls : List Shell.Call := [.line "a", .command "b # c\r\n", .line "c\nd "]
    let final := ((shell.callAll platform calls).finish platform).session
    let fresh := (new (some "/h".toList) 2 .onExit).load platform final.world
    (platform.Stores "/h" (Host.HoldsInRoot ['h']) ∧
      (∀ content?, platform.Spares (Host.HoldsInRoot ['h'] · content?)) ∧
      shell.session.history = new (some "/h".toList) 2 .eachLine ∧
      Host.HoldsInRoot ['h'] shell.session.world none) ∧
    final.history.entries = [⟨0, "b".toList⟩, ⟨1, "c\nd".toList⟩] ∧
      fresh.1.entries = [⟨0, "c".toList⟩, ⟨1, "d".toList⟩] := by
  intro platform start shell calls final fresh
  have hname : Host.FileSystem.IsName ['h'] := ⟨by decide, by decide, by decide, by decide⟩
  have hstores : platform.Stores "/h" (Host.HoldsInRoot ['h']) := Host.stores_root hname 2
  have hspares := Host.spares_root ['h'] 2
  have habsent : Host.HoldsInRoot ['h'] shell.session.world none := show _ = none by decide +kernel
  obtain ⟨hentries, -, hfresh, -⟩ := load_after_calls hstores hspares rfl habsent calls .onExit
  have hkept : newest (max 2 1) (calls.filterMap Shell.Call.accepted?) =
      ["b".toList, "c\nd".toList] := by decide
  rw [hkept] at hentries hfresh
  have hread : newest (max 2 1) (["b".toList, "c\nd".toList].flatMap Record.ofText) =
      ["c".toList, "d".toList] := by decide
  rw [hread] at hfresh
  exact ⟨⟨hstores, hspares, rfl, habsent⟩, hentries, hfresh⟩

/-- Line by line or at the end, one accepted line of two is one entry and comes back as two. -/
theorem load_after_call_with_feed :
    let platform := Host.platform 2
    let line := "a\nb".toList
    let shell := fun sync : Sync =>
      ({ session :=
          { Shell.startOn Host.bare with history := new (some "/h".toList) 10 sync } } : Shell Host)
    let final := fun sync => (((shell sync).runLine platform line).1.finish platform).session
    let fresh := fun sync => (new (some "/h".toList) 10 sync).load platform (final sync).world
    platform.Stores "/h" (Host.HoldsInRoot ['h']) ∧
      (∀ content?, platform.Spares (Host.HoldsInRoot ['h'] · content?)) ∧
      Host.HoldsInRoot ['h'] Host.bare none ∧ Line.accepted? line = some line ∧
      ∀ sync, (final sync).history.entries = [⟨0, line⟩] ∧
        (fresh sync).2 = .ok 2 ∧
        (fresh sync).1.entries = [⟨0, "a".toList⟩, ⟨1, "b".toList⟩] := by
  intro platform line shell final fresh
  have hname : Host.FileSystem.IsName ['h'] := ⟨by decide, by decide, by decide, by decide⟩
  have hstores : platform.Stores "/h" (Host.HoldsInRoot ['h']) := Host.stores_root hname 2
  have hspares := Host.spares_root ['h'] 2
  have habsent : Host.HoldsInRoot ['h'] Host.bare none := show _ = none by decide +kernel
  have haccepted : Line.accepted? line = some line := by decide
  refine ⟨hstores, hspares, habsent, haccepted, fun sync => ?_⟩
  obtain ⟨hentries, hcount, hfresh⟩ : (final sync).history.entries = _ ∧
      (fresh sync).2 = .ok (fresh sync).1.entries.length ∧ (fresh sync).1.entries = _ :=
    load_callAll hstores hspares rfl habsent [.line line] sync
  have hread : (fresh sync).1.entries = [⟨0, "a".toList⟩, ⟨1, "b".toList⟩] :=
    hfresh.trans (by decide)
  rw [hread] at hcount
  exact ⟨hentries.trans (by decide), hcount, hread⟩

end History

end CommandShell
