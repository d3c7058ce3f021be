import CommandShell.Proofs.History.Records
import CommandShell.Proofs.History.Window

/-!
# A history and its file

A path can be read and written when what is written there is read again. Nothing is asked of the
world besides; `holds` names the worlds in which this is so, and what is found at the path in them.
-/

namespace CommandShell

variable {World : Type}

/-- The content of a file behind a change. -/
def Update.onto (update : Update) (content? : Option Bytes) : Bytes :=
  if update.replaces then update.bytes else content?.getD [] ++ update.bytes

structure Platform.Reads (platform : Platform World) (path : Path)
    (holds : World → Option Bytes → Prop) : Prop where
  missing : ∀ {world}, holds world none → platform.read world path = .error (.opening .missing)
  read : ∀ {world content}, holds world (some content) → platform.read world path = .ok content

structure Platform.Stores (platform : Platform World) (path : Path)
    (holds : World → Option Bytes → Prop) : Prop extends platform.Reads path holds where
  update : ∀ {world content?} update, holds world content? →
    ∃ after, platform.update world path update = (after, .ok ()) ∧
      holds after (some (update.onto content?))

/-- A change to the file is made, or the file is not opened for it and stays what it was. -/
structure Platform.MayUpdate (platform : Platform World) (path : Path)
    (holds : World → Option Bytes → Prop) : Prop where
  update : ∀ {world content?} update, holds world content? →
    ∃ after, platform.update world path update = (after, .ok ()) ∧
        holds after (some (update.onto content?)) ∨
      ∃ fault, platform.update world path update = (after, .error (.opening fault)) ∧
        holds after content?

/-- A file that can be read, and changed when it is opened for that. -/
structure Platform.MayStore (platform : Platform World) (path : Path)
    (holds : World → Option Bytes → Prop) : Prop
    extends platform.Reads path holds, platform.MayUpdate path holds

/-- A file that is there. It may be out of reach for reading, and it is changed when it is opened
for that. -/
structure Platform.MayWrite (platform : Platform World) (path : Path)
    (holds : World → Option Bytes → Prop) : Prop extends platform.MayUpdate path holds where
  present : ∀ {world content}, holds world (some content) →
    platform.read world path ≠ .error (.opening .missing)

theorem Platform.MayStore.mayWrite {platform : Platform World} {path : Path}
    {holds : World → Option Bytes → Prop} (hmay : platform.MayStore path holds) :
    platform.MayWrite path holds where
  toMayUpdate := hmay.toMayUpdate
  present hholds := by
    rw [hmay.read hholds]
    exact nofun

theorem Platform.Stores.mayStore {platform : Platform World} {path : Path}
    {holds : World → Option Bytes → Prop} (hstores : platform.Stores path holds) :
    platform.MayStore path holds where
  toReads := hstores.toReads
  update update hholds := by
    obtain ⟨after, hupdate, hafter⟩ := hstores.update update hholds
    exact ⟨after, .inl ⟨hupdate, hafter⟩⟩

namespace History

variable {platform : Platform World} {path : Path} {holds : World → Option Bytes → Prop}

theorem sync_load (platform : Platform World) (world : World) (history : History) :
    (history.load platform world).1.sync = history.sync := by
  unfold load
  split
  · rfl
  · split
    · rfl
    · split <;> rfl

/-- A missing file is read as an empty one. -/
theorem load_of_reads (hreads : platform.Reads path holds) {world : World}
    {content? : Option Bytes} (hholds : holds world content?) (limit : Nat) (sync : Sync) :
    (new (some path) limit sync).load platform world =
      let history := (new (some path) limit sync).loaded (Record.parse (content?.getD []))
      (history, .ok history.entries.length) := by
  cases content? with
  | none =>
      simp [load, new, hreads.missing hholds, Record.parse_nil, loaded, newest, number]
  | some content =>
      simp only [load, new, hreads.read hholds, Option.getD_some]

theorem load_new (hstores : platform.Stores path holds) {world : World} {content? : Option Bytes}
    (hholds : holds world content?) (limit : Nat) (sync : Sync) :
    (new (some path) limit sync).load platform world =
      let history := (new (some path) limit sync).loaded (Record.parse (content?.getD []))
      (history, .ok history.entries.length) :=
  load_of_reads hstores.toReads hholds limit sync

theorem save_of_stores (hstores : platform.Stores path holds) {world : World}
    {content? : Option Bytes} (hholds : holds world content?) {history : History}
    (hpath : history.path? = some path) :
    ∃ after, history.save platform world = (after, history.saved, .ok ()) ∧
      holds after (some (history.saveUpdate.onto content?)) := by
  obtain ⟨after, hupdate, hafter⟩ := hstores.update history.saveUpdate hholds
  refine ⟨after, ?_, hafter⟩
  rw [save, hpath]
  simp only [hupdate]

end History

end CommandShell
