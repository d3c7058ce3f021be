import CommandShell.Proofs.History.File
import CommandShell.Proofs.History.Tail
import CommandShell.Proofs.History.Window

/-!
# From a push to the file

A line that is to reach the file at once is put behind its content, or brings the whole window with
it when the file is full; or the file is not opened and stays what it was. What a history keeps does
not hang on which of these happens; whether the file is in step with it does.
-/

namespace CommandShell.History

variable {World : Type} {platform : Platform World} {path : Path} {limit : Nat} {sync : Sync}
  {holds : World → Option Bytes → Prop} {texts : List Text} {history : History}

/-! ### One push -/

/-- How a push that is to reach the file at once ends. -/
inductive Pushed (holds : World → Option Bytes → Prop) (content? : Option Bytes)
    (history : History) (line : Text) : World → History → Except Fault Unit → Prop
  | rewritten {after : World} (hfull : history.limit ≤ history.persisted)
      (hafter : holds after
        (some (Update.bytes { replaces := true, lines := (history.record line).lines }))) :
      Pushed holds content? history line after (history.record line).saved (.ok ())
  | appended {after : World} (hroom : history.persisted < history.limit)
      (hafter : holds after
        (some (content?.getD [] ++ Update.bytes { replaces := false, lines := [line] }))) :
      Pushed holds content? history line after (history.record line).appended (.ok ())
  | refused {after : World} {fault : Fault} (hafter : holds after content?) :
      Pushed holds content? history line after (history.record line) (.error fault)

theorem save_of_mayWrite (hmay : platform.MayWrite path holds) {world : World}
    {content? : Option Bytes} (hholds : holds world content?) (hpath : history.path? = some path) :
    ∃ after, history.save platform world = (after, history.saved, .ok ()) ∧
        holds after (some (history.saveUpdate.onto content?)) ∨
      ∃ fault, history.save platform world = (after, history, .error fault) ∧
        holds after content? := by
  obtain ⟨after, ⟨hmade, hafter⟩ | ⟨fault, hrefused, hafter⟩⟩ :=
    hmay.update history.saveUpdate hholds
  · refine ⟨after, .inl ⟨?_, hafter⟩⟩
    rw [save, hpath]
    simp only [hmade]
  · refine ⟨after, .inr ⟨saveFault path history.saveUpdate (.opening fault), ?_, hafter⟩⟩
    rw [save, hpath]
    simp only [hrefused]

theorem append_of_mayStore (hmay : platform.MayStore path holds) {world : World}
    {content? : Option Bytes} (hholds : holds world content?) (hpath : history.path? = some path)
    (hroom : history.savesOnAppend = false) {entry : Entry}
    (hlast : history.entries.getLast? = some entry) :
    ∃ after, history.append platform world = (after, history.appended, .ok ()) ∧
        holds after
          (some (content?.getD [] ++ Update.bytes { replaces := false, lines := [entry.line] })) ∨
      ∃ fault, history.append platform world = (after, history, .error fault) ∧
        holds after content? := by
  obtain ⟨after, ⟨hmade, hafter⟩ | ⟨fault, hrefused, hafter⟩⟩ :=
    hmay.update { replaces := false, lines := [entry.line] } hholds
  · refine ⟨after, .inl ⟨?_, hafter⟩⟩
    rw [append, hroom, if_neg Bool.false_ne_true, hpath, hlast]
    simp only [hmade]
  · refine ⟨after, .inr ⟨appendFault path (.opening fault), ?_, hafter⟩⟩
    rw [append, hroom, if_neg Bool.false_ne_true, hpath, hlast]
    simp only [hrefused]

theorem pushed_of_push (hmay : platform.MayStore path holds) {world : World}
    {content? : Option Bytes} (hholds : holds world content?) (hpath : history.path? = some path)
    (hsync : history.sync = .eachLine) (hreplaces : history.onlyExtends = false) {line : Text}
    (hfilled : line ≠ []) {after : World} {next : History} {outcome : Except Fault Unit}
    (hpush : history.push platform world line = (after, next, outcome)) :
    Pushed holds content? history line after next outcome := by
  have hpath' : (history.record line).path? = some path := hpath
  have hreplaces' : (history.record line).onlyExtends = false := hreplaces
  have hsaves : (history.record line).savesOnAppend =
      decide (history.limit ≤ history.persisted) := by
    rw [savesOnAppend, hreplaces', Bool.or_false]
    rfl
  have happend : (history.record line).append platform world = (after, next, outcome) := by
    rwa [push, List.isEmpty_eq_false_iff.mpr hfilled, if_neg Bool.false_ne_true, hsync] at hpush
  by_cases hfull : history.limit ≤ history.persisted
  · have hupdate : (history.record line).saveUpdate =
        { replaces := true, lines := (history.record line).lines } := by
      rw [saveUpdate, hreplaces']
      rfl
    rw [append, hsaves, decide_eq_true hfull, if_pos rfl] at happend
    obtain ⟨world', ⟨hmade, hafter⟩ | ⟨fault, hrefused, hafter⟩⟩ :=
      save_of_mayWrite hmay.mayWrite hholds hpath'
    · cases happend.symm.trans hmade
      rw [hupdate] at hafter
      exact .rewritten hfull hafter
    · cases happend.symm.trans hrefused
      exact .refused hafter
  · have hlast : (history.record line).entries.getLast? =
        some { index := (history.record line).entries.length - 1, line } := by
      simp [record]
    obtain ⟨world', ⟨hmade, hafter⟩ | ⟨fault, hrefused, hafter⟩⟩ :=
      append_of_mayStore hmay hholds hpath' (hsaves.trans (decide_eq_false hfull)) hlast
    · cases happend.symm.trans hmade
      exact .appended (Nat.lt_of_not_le hfull) hafter
    · cases happend.symm.trans hrefused
      exact .refused hafter

theorem push_of_stores (hstores : platform.Stores path holds) {world : World}
    {content? : Option Bytes} (hholds : holds world content?) (hpath : history.path? = some path)
    (line : Text) :
    ∃ after next content?', history.push platform world line = (after, next, .ok ()) ∧
      holds after content?' ∧ next.path? = some path := by
  have hpath' : (history.record line).path? = some path := hpath
  unfold push
  split
  · exact ⟨world, history, content?, rfl, hholds, hpath⟩
  · split
    · exact ⟨world, history.record line, content?, rfl, hholds, hpath⟩
    · unfold append
      split
      · obtain ⟨after, hsave, hafter⟩ := save_of_stores hstores hholds hpath'
        exact ⟨after, (history.record line).saved, _, hsave, hafter, hpath⟩
      · split
        · next written entry hwritten _ =>
          obtain rfl : path = written := Option.some.inj (hpath'.symm.trans hwritten)
          obtain ⟨after, hupdate, hafter⟩ :=
            hstores.update { replaces := false, lines := [entry.line] } hholds
          refine ⟨after, (history.record line).appended, _, ?_, hafter, hpath⟩
          simp only [hupdate]
        · exact ⟨world, history.record line, content?, rfl, hholds, hpath⟩

/-! ### What a history keeps -/

/-- A history on a file that it may replace, with the newest of the texts that it took up. -/
structure Collects (path : Path) (limit : Nat) (sync : Sync) (texts : List Text)
    (history : History) : Prop where
  path_eq : history.path? = some path
  limit_eq : history.limit = limit
  sync_eq : history.sync = sync
  replaces : history.onlyExtends = false
  entries : history.entries = number (newest limit texts)

theorem Collects.lines (hcollects : Collects path limit sync texts history) :
    history.lines = newest limit texts := by
  rw [History.lines, hcollects.entries, lines_number]

theorem Collects.record (hlimit : 1 ≤ limit) (hcollects : Collects path limit sync texts history)
    (line : Text) : Collects path limit sync (texts ++ [line]) (history.record line) where
  path_eq := hcollects.path_eq
  limit_eq := hcollects.limit_eq
  sync_eq := hcollects.sync_eq
  replaces := hcollects.replaces
  entries := entries_record_newest hlimit hcollects.limit_eq hcollects.entries line

theorem Collects.saved (hcollects : Collects path limit sync texts history) :
    Collects path limit sync texts history.saved :=
  ⟨hcollects.path_eq, hcollects.limit_eq, hcollects.sync_eq, hcollects.replaces,
    hcollects.entries⟩

theorem Collects.appended (hcollects : Collects path limit sync texts history) :
    Collects path limit sync texts history.appended :=
  ⟨hcollects.path_eq, hcollects.limit_eq, hcollects.sync_eq, hcollects.replaces,
    hcollects.entries⟩

/-- The texts are such that each comes back from the file as one record. -/
structure Keeps (path : Path) (limit : Nat) (sync : Sync) (texts : List Text)
    (history : History) : Prop extends Collects path limit sync texts history where
  recordable : ∀ text ∈ texts, Recordable text

theorem Keeps.length_entries (hkeeps : Keeps path limit sync texts history) :
    history.entries.length = min limit texts.length := by
  rw [hkeeps.entries, length_number, length_newest]

theorem Keeps.recordable_lines (hkeeps : Keeps path limit sync texts history) :
    ∀ line ∈ history.lines, Recordable line := by
  intro line hline
  rw [hkeeps.lines] at hline
  exact hkeeps.recordable line (mem_of_mem_newest hline)

theorem keeps_loaded (hlimit : 1 ≤ limit) (path : Path) (sync : Sync) (content : Bytes) :
    Keeps path limit sync (Record.parse content)
      ((new (some path) limit sync).loaded (Record.parse content)) where
  path_eq := rfl
  limit_eq := Nat.max_eq_left hlimit
  sync_eq := rfl
  replaces := rfl
  entries := congrArg (fun bound => number (newest bound _)) (Nat.max_eq_left hlimit)
  recordable _ htext := Record.recordable_of_mem_parse htext

theorem Keeps.record (hlimit : 1 ≤ limit) (hkeeps : Keeps path limit sync texts history)
    {line : Text} (hline : Recordable line) :
    Keeps path limit sync (texts ++ [line]) (history.record line) where
  toCollects := hkeeps.toCollects.record hlimit line
  recordable := by
    intro text htext
    rcases List.mem_append.mp htext with hearlier | hlast
    · exact hkeeps.recordable text hearlier
    · rwa [List.mem_singleton.mp hlast]

theorem Keeps.saved (hkeeps : Keeps path limit sync texts history) :
    Keeps path limit sync texts history.saved :=
  ⟨hkeeps.toCollects.saved, hkeeps.recordable⟩

theorem Keeps.appended (hkeeps : Keeps path limit sync texts history) :
    Keeps path limit sync texts history.appended :=
  ⟨hkeeps.toCollects.appended, hkeeps.recordable⟩

/-! ### What the file holds -/

/-- A history knows how many records its file holds, and nothing stands behind the last one. -/
structure Tracks (history : History) (content : Bytes) : Prop where
  terminated : Record.Terminated content
  persisted : history.persisted = (Record.parse content).length

/-- A history that is read from the file has the entries of this one. -/
def InStep (history : History) (content : Bytes) : Prop :=
  newest history.limit (Record.parse content) = history.lines

theorem tracks_loaded {content : Bytes} (hend : Record.Terminated content) (history : History) :
    Tracks (history.loaded (Record.parse content)) content :=
  ⟨hend, rfl⟩

theorem inStep_loaded (history : History) (content : Bytes) :
    InStep (history.loaded (Record.parse content)) content :=
  (lines_loaded history (Record.parse content)).symm

theorem Keeps.tracks_saved (hkeeps : Keeps path limit sync texts history) :
    Tracks history.saved (Update.bytes { replaces := true, lines := history.lines }) where
  terminated := Record.terminated_bytes _ _
  persisted := by
    rw [Record.parse_bytes hkeeps.recordable_lines, length_lines, History.saved]
    simp [hkeeps.replaces]

theorem Keeps.inStep_saved (hkeeps : Keeps path limit sync texts history) :
    InStep history.saved (Update.bytes { replaces := true, lines := history.lines }) := by
  have hlimit : history.saved.limit = limit := hkeeps.limit_eq
  rw [InStep, Record.parse_bytes hkeeps.recordable_lines, hlimit, hkeeps.lines, newest_newest]
  exact hkeeps.lines.symm

theorem Tracks.appended {content : Bytes} (htracks : Tracks history content) {line : Text}
    (hline : Recordable line) :
    Tracks (history.record line).appended
      (content ++ Update.bytes { replaces := false, lines := [line] }) where
  terminated := Record.terminated_append htracks.terminated (Record.terminated_bytes _ _)
  persisted := by
    rw [Record.parse_append_of_terminated htracks.terminated,
      Record.parse_bytes (by simpa using hline), List.length_append, List.length_singleton,
      ← htracks.persisted]
    rfl

theorem InStep.appended (hlimit : 1 ≤ history.limit) {content : Bytes}
    (htracks : Tracks history content) (hstep : InStep history content) {line : Text}
    (hline : Recordable line) :
    InStep (history.record line).appended
      (content ++ Update.bytes { replaces := false, lines := [line] }) := by
  change newest history.limit (Record.parse _) = (history.record line).lines
  rw [Record.parse_append_of_terminated htracks.terminated,
    Record.parse_bytes (by simpa using hline), lines_record hlimit, ← hstep, newest_newest_append]

theorem load_of_inStep (hreads : platform.Reads path holds)
    (hkeeps : Keeps path limit sync texts history) {world : World} {content? : Option Bytes}
    (hholds : holds world content?) (hstep : InStep history (content?.getD [])) (mode : Sync)
    (hlimit : 1 ≤ limit) :
    let fresh := (new (some path) limit mode).load platform world
    fresh.2 = .ok history.entries.length ∧ fresh.1.entries = history.entries := by
  have hentries : ((new (some path) limit mode).loaded (Record.parse (content?.getD []))).entries =
      history.entries := by
    rw [(keeps_loaded hlimit path mode _).entries, hkeeps.entries, ← hkeeps.lines, ← hstep,
      hkeeps.limit_eq]
  rw [load_of_reads hreads hholds limit mode]
  exact ⟨congrArg (fun entries => Except.ok entries.length) hentries, hentries⟩

end CommandShell.History
