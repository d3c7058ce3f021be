import CommandShell.Proofs.History.File
import CommandShell.Proofs.Host.RootFile
import CommandShell.Proofs.Shell.Composition
import CommandShell.Proofs.Shell.Recording

/-!
# History across sessions

Sessions come one after the other on one history file; each reads it, runs its input, and writes it
at its end. The file holds the newest of all lines taken up so far, one record each, and that is
what the next session starts from.
-/

namespace CommandShell

variable {World : Type}

namespace Shell

/-- The shell of a session on a history file, before its first line. -/
def opened (platform : Platform World) (path : Path) (limit : Nat) (start : Session World) :
    Shell World :=
  { session :=
      { start with
        history := ((History.new (some path) limit .onExit).load platform start.world).1 } }

/-- A whole session: the file is read, the input is run, and the file is written. -/
def visit (platform : Platform World) (path : Path) (limit : Nat) (start : Session World)
    (input : Bytes) : Shell World :=
  ((opened platform path limit start).runReader platform input).1.finish platform

def visitTaken (platform : Platform World) (path : Path) (limit : Nat) (start : Session World)
    (input : Bytes) : List Text :=
  (opened platform path limit start).taken platform ((Line.ofBytes input).map Utf8.decodeLossy)

theorem sync_opened (platform : Platform World) (path : Path) (limit : Nat)
    (start : Session World) : (opened platform path limit start).session.history.sync = .onExit :=
  History.sync_load platform start.world _

def startOn (host : Host) : Session Host :=
  { (onBareHost []).session with world := host }

def visitBare (host : Host) (input : Bytes) : Host :=
  (visit (Host.platform 2) "/h" 2 (startOn host) input).session.world

/-- What two sessions leave on a bare host. -/
def visitedTwice : Host :=
  visitBare (visitBare Host.bare (Utf8.encode "setenv A 1 # one\r\n\n".toList))
    (Utf8.encode "setenv B ".toList ++ [0xFF])

end Shell

namespace History

/-- The worlds that any number of sessions leave behind, with all that these took up, in order.
Between two sessions the world may change, as long as the file stays what it is. -/
inductive Sessions (platform : Platform World) (path : Path) (limit : Nat)
    (holds : World → Option Bytes → Prop) : World → List Text → Prop
  | absent {world : World} (habsent : holds world none) :
      Sessions platform path limit holds world []
  | meanwhile {world after : World} {texts : List Text}
      (hsessions : Sessions platform path limit holds world texts)
      (hspared : ∀ content?, holds world content? → holds after content?) :
      Sessions platform path limit holds after texts
  | session {texts : List Text} (start : Session World) (input : Bytes)
      (hsessions : Sessions platform path limit holds start.world texts) :
      Sessions platform path limit holds
        (Shell.visit platform path limit start input).session.world
        (texts ++ Shell.visitTaken platform path limit start input)

variable {platform : Platform World} {path : Path} {limit : Nat}
  {holds : World → Option Bytes → Prop}

/-- What the file holds behind all sessions that took up these texts. -/
structure Kept (holds : World → Option Bytes → Prop) (limit : Nat) (world : World)
    (texts : List Text) (content? : Option Bytes) : Prop where
  holds : holds world content?
  records : Record.parse (content?.getD []) = newest limit texts
  recordable : ∀ text ∈ texts, Recordable text

theorem saveUpdate_foldl_record (hlimit : 1 ≤ limit) (sync : Sync) (texts taken : List Text) :
    (taken.foldl record ((new (some path) limit sync).loaded (newest limit texts))).saveUpdate =
      { replaces := true, lines := newest limit (texts ++ taken) } := by
  have hmax : max limit 1 = limit := Nat.max_eq_left hlimit
  have hbound : ((new (some path) limit sync).loaded (newest limit texts)).limit = limit := hmax
  have hlines : ((new (some path) limit sync).loaded (newest limit texts)).lines =
      newest ((new (some path) limit sync).loaded (newest limit texts)).limit texts := by
    rw [lines_loaded, hbound]
    exact (congrArg (newest · _) hmax).trans (newest_newest limit texts)
  have hwindow := lines_foldl_record (hbound.symm ▸ hlimit) hlines taken
  have hreplaces := foldl_record_eq (·.onlyExtends) (fun _ _ => rfl)
    ((new (some path) limit sync).loaded (newest limit texts)) taken
  rw [hbound] at hwindow
  rw [saveUpdate, hreplaces, hwindow]
  rfl

theorem holds_finish (hstores : platform.Stores path holds) {shell : Shell World}
    (hpath : shell.session.history.path? = some path)
    (hsync : shell.session.history.sync = .onExit) {content? : Option Bytes}
    (hholds : holds shell.session.world content?) :
    holds (shell.finish platform).session.world
      (some (shell.session.history.saveUpdate.onto content?)) := by
  obtain ⟨after, hsave, hafter⟩ := save_of_stores hstores hholds hpath
  have hfinish : shell.session.history.finish platform shell.session.world =
      (after, shell.session.history.saved, .ok ()) := by
    rw [finish, hsync]
    exact hsave
  rw [Shell.finish]
  simp only [hfinish]
  exact hafter

theorem Kept.session (hlimit : 1 ≤ limit) (hstores : platform.Stores path holds)
    (hspares : ∀ content?, platform.Spares (holds · content?)) {texts : List Text}
    {content? : Option Bytes} {start : Session World}
    (hkept : Kept holds limit start.world texts content?) (input : Bytes) :
    ∃ content?', Kept holds limit (Shell.visit platform path limit start input).session.world
      (texts ++ Shell.visitTaken platform path limit start input) content?' := by
  have hopened : (Shell.opened platform path limit start).session.history =
      (new (some path) limit .onExit).loaded (newest limit texts) := by
    rw [← hkept.records]
    exact congrArg Prod.fst (load_new hstores hkept.holds limit .onExit)
  obtain ⟨hhistory, hworld⟩ := Shell.runLines_onExit (hspares content?)
    (Shell.sync_opened platform path limit start) ((Line.ofBytes input).map Utf8.decodeLossy)
  rw [hopened] at hhistory
  have hrun : ((Shell.opened platform path limit start).runReader platform input).1 =
      ((Shell.opened platform path limit start).runLines platform
        ((Line.ofBytes input).map Utf8.decodeLossy)).1 :=
    Shell.fst_statusOf _
  rw [← hrun] at hhistory hworld
  have hpath := (congrArg (·.path?) hhistory).trans (foldl_record_eq (·.path?) (fun _ _ => rfl) _ _)
  have hsync' := (congrArg (·.sync) hhistory).trans (foldl_record_eq (·.sync) (fun _ _ => rfl) _ _)
  have hfinish := holds_finish hstores hpath hsync' (hworld hkept.holds)
  rw [hhistory, saveUpdate_foldl_record hlimit] at hfinish
  have hrecordable : ∀ text ∈ texts ++ Shell.visitTaken platform path limit start input,
      Recordable text := by
    intro text htext
    rcases List.mem_append.mp htext with hearlier | htaken
    · exact hkept.recordable text hearlier
    · exact Shell.recordable_of_mem_taken platform htaken
  refine ⟨_, hfinish, ?_, hrecordable⟩
  exact Record.parse_bytes (fun text htext => hrecordable text (mem_of_mem_newest htext)) true

theorem Sessions.kept (hlimit : 1 ≤ limit) (hstores : platform.Stores path holds)
    (hspares : ∀ content?, platform.Spares (holds · content?)) {world : World} {texts : List Text}
    (hsessions : Sessions platform path limit holds world texts) :
    ∃ content?, Kept holds limit world texts content? := by
  induction hsessions with
  | absent habsent =>
      exact ⟨none, habsent, by simp [Record.parse_nil, newest], fun _ htext => by cases htext⟩
  | meanwhile _ hspared ih =>
      obtain ⟨content?, hkept⟩ := ih
      exact ⟨content?, hspared content? hkept.holds, hkept.records, hkept.recordable⟩
  | session start input _ ih =>
      obtain ⟨content?, hkept⟩ := ih
      exact hkept.session hlimit hstores hspares input

/-- Whatever the sessions ran, the next one finds the newest of all lines that they took up, each
of them whole and in its place. -/
theorem load_after_sessions (hlimit : 1 ≤ limit) (hstores : platform.Stores path holds)
    (hspares : ∀ content?, platform.Spares (holds · content?)) {world : World} {texts : List Text}
    (hsessions : Sessions platform path limit holds world texts) (sync : Sync) :
    let fresh := (new (some path) limit sync).load platform world
    fresh.2 = .ok (newest limit texts).length ∧ fresh.1.entries = number (newest limit texts) := by
  obtain ⟨content?, hkept⟩ := hsessions.kept hlimit hstores hspares
  have hmax : max limit 1 = limit := Nat.max_eq_left hlimit
  have hentries : ((new (some path) limit sync).loaded (newest limit texts)).entries =
      number (newest limit texts) := by
    change number (newest (max limit 1) (newest limit texts)) = _
    rw [hmax, newest_newest]
  rw [load_new hstores hkept.holds limit sync, hkept.records]
  refine ⟨?_, hentries⟩
  simp only [hentries]
  rw [number, List.length_mapIdx]

theorem load_after_sessions_bare :
    let world := Shell.visitBare Shell.visitedTwice (Utf8.encode "exit\nhelp\n".toList)
    let fresh := (new (some "/h".toList) 2 .onExit).load (Host.platform 2) world
    Sessions (Host.platform 2) "/h" 2 (Host.HoldsInRoot ['h']) world
        ["setenv A 1".toList, "setenv B \uFFFD".toList, "exit".toList] ∧
      fresh.2 = .ok 2 ∧
        fresh.1.entries = [⟨0, "setenv B \uFFFD".toList⟩, ⟨1, "exit".toList⟩] := by
  have hname : Host.FileSystem.IsName ['h'] := ⟨by decide, by decide, by decide, by decide⟩
  have hmissing : Host.bare.files.node? [['h']] = none := by decide
  have hfirst : ∀ start, Shell.visitTaken (Host.platform 2) "/h" 2 start
      (Utf8.encode "setenv A 1 # one\r\n\n".toList) = ["setenv A 1".toList] := by
    intro start
    have hlines : (Line.ofBytes (Utf8.encode "setenv A 1 # one\r\n\n".toList)).map
        Utf8.decodeLossy = ["setenv A 1 # one\r".toList, []] := by decide +kernel
    rw [Shell.visitTaken, hlines]
    exact Shell.taken_cons_of_blank _ _ (by decide) (by decide)
  have hsecond : ∀ start, Shell.visitTaken (Host.platform 2) "/h" 2 start
      (Utf8.encode "setenv B ".toList ++ [0xFF]) = ["setenv B \uFFFD".toList] := by
    intro start
    have hlines : (Line.ofBytes (Utf8.encode "setenv B ".toList ++ [0xFF])).map
        Utf8.decodeLossy = ["setenv B \uFFFD".toList] := by decide +kernel
    rw [Shell.visitTaken, hlines]
    exact Shell.taken_cons_of_blank _ _ (by decide) (by decide)
  have hthird : Shell.visitTaken (Host.platform 2) "/h" 2 (Shell.startOn Shell.visitedTwice)
      (Utf8.encode "exit\nhelp\n".toList) = ["exit".toList] := by
    have hlines : (Line.ofBytes (Utf8.encode "exit\nhelp\n".toList)).map Utf8.decodeLossy =
        ["exit".toList, "help".toList] := by decide +kernel
    have haccepted : Line.accepted? "exit" = some "exit".toList := by decide
    have hplain : Chain.Plain "exit".toList := by decide
    have hleaves := Shell.runLine_of_plain (Host.platform 2)
      (Shell.sync_opened (Host.platform 2) "/h" 2 (Shell.startOn Shell.visitedTwice))
      haccepted hplain rfl (show _ = some 0 by decide +kernel)
    rw [Shell.visitTaken, hlines, Shell.taken, Shell.executed_cons_of_leaves _ hleaves]
    decide
  have habsent : Sessions (Host.platform 2) "/h" 2 (Host.HoldsInRoot ['h']) Host.bare [] :=
    .absent hmissing
  have hsessions := ((habsent.session (Shell.startOn Host.bare)
    (Utf8.encode "setenv A 1 # one\r\n\n".toList)).session (Shell.startOn _)
      (Utf8.encode "setenv B ".toList ++ [0xFF])).session (Shell.startOn Shell.visitedTwice)
        (Utf8.encode "exit\nhelp\n".toList)
  rw [hfirst, hsecond, hthird] at hsessions
  exact ⟨hsessions, load_after_sessions (by decide) (Host.stores_root hname 2)
    (Host.spares_root ['h'] 2) hsessions .onExit⟩

end History

end CommandShell
