import CommandShell.Host
import CommandShell.Proofs.History.File
import CommandShell.Proofs.Session.Frame

/-!
# Where a path leads

A path is walked anew whenever it is used. A walk that ended finds the same way as long as the
directories and links are what they were, whatever was written into files; so a path keeps leading
to the file that it led to, as long as it is walked from the same directory.
-/

namespace CommandShell.Host

namespace FileSystem

/-! ### One step of a walk -/

variable {files later : FileSystem} {creating createsLater : Bool}
  {follow followLater : Location → List Text → Except Fault (Location × Option Node)}
  {location found : Location} {name : Text} {names rest : List Text} {node? : Option Node}
  {result : Location × Option Node}

/-- A name that is looked up in the directory where it is met. -/
structure IsEntry (creating : Bool) (name : Text) (rest : List Text) : Prop where
  moves : staysAt name = false
  down : name ≠ ['.', '.']
  allowed : (creating && decide (rest = [[]])) = false
  short : ¬maxName < (Utf8.encode name).length

/-- How a walk that comes to an end takes its next step. -/
inductive Step (files : FileSystem) (creating : Bool)
    (follow : Location → List Text → Except Fault (Location × Option Node)) (location : Location)
    (name : Text) (rest : List Text) (result : Location × Option Node) : Prop
  | stays (hstays : staysAt name = true)
      (hrest : files.walkWith creating follow location rest = .ok result)
  | up (hmoves : staysAt name = false) (hup : name = ['.', '.'])
      (hrest : files.walkWith creating follow location.dropLast rest = .ok result)
  | ends (hentry : IsEntry creating name rest) (hnode : files.node? (location ++ [name]) = none)
      (hlast : rest = []) (hresult : (location ++ [name], none) = result)
  | follows (hentry : IsEntry creating name rest) {target : Path}
      (hnode : files.node? (location ++ [name]) = some (.link target))
      (hfollow : follow (if Path.isAbsolute target then [] else location) (steps target ++ rest) =
        .ok result)
  | enters (hentry : IsEntry creating name rest) {node : Node}
      (hnode : files.node? (location ++ [name]) = some node)
      (hlink : ∀ target, node ≠ .link target)
      (hrest : files.walkWith creating follow (location ++ [name]) rest = .ok result)

theorem step_of_walkWith
    (hwalk : files.walkWith creating follow location (name :: rest) = .ok result) :
    files.node? location = some .directory ∧
      Step files creating follow location name rest result := by
  rw [walkWith] at hwalk
  split at hwalk
  · cases hwalk
  · next hdirectory =>
    refine ⟨hdirectory, ?_⟩
    split at hwalk
    · next hstays => exact .stays hstays hwalk
    next hmoves =>
    split at hwalk
    · next hup => exact .up (Bool.eq_false_iff.mpr hmoves) hup hwalk
    next hdown =>
    split at hwalk
    · cases hwalk
    next hallowed =>
    split at hwalk
    · cases hwalk
    next hshort =>
    have hentry : IsEntry creating name rest :=
      ⟨Bool.eq_false_iff.mpr hmoves, hdown, Bool.eq_false_iff.mpr hallowed, hshort⟩
    split at hwalk
    · next hnode =>
      split at hwalk
      · next hlast => exact .ends hentry hnode (List.isEmpty_iff.mp hlast) (Except.ok.inj hwalk)
      · cases hwalk
    · next target hnode => exact .follows hentry hnode hwalk
    · next node hlink hnode => exact .enters hentry hnode hlink hwalk
  · cases hwalk

theorem Step.walkWith (hdirectory : files.node? location = some .directory)
    (hstep : Step files creating follow location name rest result) :
    files.walkWith creating follow location (name :: rest) = .ok result := by
  rw [FileSystem.walkWith, hdirectory]
  cases hstep with
  | stays hstays hrest => simpa only [hstays, if_true] using hrest
  | up hmoves hup hrest => simpa only [hmoves, Bool.false_eq_true, if_false, if_pos hup] using hrest
  | ends hentry hnode hlast hresult =>
      subst hlast hresult
      simp [hentry.moves, hentry.down, hentry.short, hnode]
  | follows hentry hnode hfollow =>
      simpa [hentry.moves, hentry.down, hentry.allowed, hentry.short, hnode] using hfollow
  | enters hentry hnode hlink hrest =>
      simpa only [hentry.moves, hentry.down, hentry.allowed, hentry.short, hnode, if_false,
        Bool.false_eq_true] using hrest

/-! ### Walks in two file systems -/

/-- What one file system has is in the other, and where a walk goes on, it goes on alike. -/
structure Agree (files later : FileSystem) : Prop where
  directory : ∀ {location}, files.node? location = some .directory →
    later.node? location = some .directory
  link : ∀ {location target}, files.node? location = some (.link target) →
    later.node? location = some (.link target)
  noLink : ∀ {location target}, later.node? location = some (.link target) →
    files.node? location = some (.link target)
  missing : ∀ {location}, later.node? location = none → files.node? location = none

theorem Agree.refl (files : FileSystem) : Agree files files :=
  ⟨id, id, id, id⟩

theorem IsEntry.of_creates (hentry : IsEntry creating name rest)
    (hcreates : createsLater = true → creating = true) : IsEntry createsLater name rest where
  moves := hentry.moves
  down := hentry.down
  short := hentry.short
  allowed := by
    have hallowed := hentry.allowed
    cases createsLater with
    | false => rfl
    | true => rwa [hcreates rfl] at hallowed

theorem walkWith_of_agree (hagree : Agree files later)
    (hcreates : createsLater = true → creating = true)
    (hfollow : ∀ {location names found node?}, follow location names = .ok (found, node?) →
      followLater location names = .ok (found, later.node? found))
    (hwalk : files.walkWith creating follow location names = .ok (found, node?)) :
    later.walkWith createsLater followLater location names = .ok (found, later.node? found) := by
  induction names generalizing location with
  | nil =>
      rw [walkWith] at hwalk ⊢
      cases hwalk
      rfl
  | cons name rest ih =>
      obtain ⟨hdirectory, hstep⟩ := step_of_walkWith hwalk
      refine Step.walkWith (hagree.directory hdirectory) ?_
      cases hstep with
      | stays hstays hrest => exact .stays hstays (ih hrest)
      | up hmoves hup hrest => exact .up hmoves hup (ih hrest)
      | ends hentry hnode hlast hresult =>
          cases hresult
          -- What was missing may be a file by now.
          cases hlater : later.node? (location ++ [name]) with
          | none => exact .ends (hentry.of_creates hcreates) hlater hlast rfl
          | some node =>
              refine .enters (hentry.of_creates hcreates) hlater ?_ ?_
              · rintro target rfl
                rw [hagree.noLink hlater] at hnode
                cases hnode
              · rw [hlast, walkWith, hlater]
      | follows hentry hnode hnext =>
          exact .follows (hentry.of_creates hcreates) (hagree.link hnode) (hfollow hnext)
      | enters hentry hnode hlink hrest =>
          cases hlater : later.node? (location ++ [name]) with
          | none =>
              rw [hagree.missing hlater] at hnode
              cases hnode
          | some node =>
              refine .enters (hentry.of_creates hcreates) hlater ?_ (ih hrest)
              rintro target rfl
              rw [hagree.noLink hlater] at hnode
              exact hlink target (Option.some.inj hnode).symm

theorem walk_of_agree (hagree : Agree files later)
    (hcreates : createsLater = true → creating = true) (links : Nat)
    (hwalk : files.walk creating links location names = .ok (found, node?)) :
    later.walk createsLater links location names = .ok (found, later.node? found) := by
  induction links generalizing location names found node? with
  | zero => exact walkWith_of_agree hagree hcreates (fun hfollow => by cases hfollow) hwalk
  | succ links ih => exact walkWith_of_agree hagree hcreates ih hwalk

theorem climb_of_ok {lost : Nat} {names : List Text} {result : Nat × List Text}
    (hclimb : climb creating lost names = .ok result) (createsLater : Bool) :
    climb createsLater lost names = .ok result := by
  induction names generalizing lost with
  | nil => cases lost <;> exact hclimb
  | cons name rest ih =>
      cases lost with
      | zero => exact hclimb
      | succ lost =>
          rw [climb] at hclimb ⊢
          split at hclimb
          · next hstays =>
            rw [if_pos hstays]
            exact ih hclimb
          · next hstays =>
            rw [if_neg hstays]
            split at hclimb
            · next hup =>
              rw [if_pos hup]
              exact ih hclimb
            · split at hclimb <;> cases hclimb

theorem seekSteps_of_agree (hagree : Agree files later)
    (hcreates : createsLater = true → creating = true) {working : Place} {path : Path}
    {names : List Text} {found : Location} {node? : Option Node}
    (hseek : files.seekSteps creating working path names = .ok (⟨found, 0⟩, node?)) :
    later.seekSteps createsLater working path names = .ok (⟨found, 0⟩, later.node? found) := by
  unfold seekSteps at hseek ⊢
  split at hseek
  · cases hseek
  · next hnul =>
    rw [if_neg hnul]
    split at hseek
    · cases hseek
    · next hempty =>
      rw [if_neg hempty]
      unfold walkFrom at hseek ⊢
      split at hseek
      · cases hseek
      · next names' hclimb =>
        rw [climb_of_ok hclimb createsLater]
        cases hwalk : files.walk creating maxLinks
            (if Path.isAbsolute path then ⟨[], 0⟩ else working).location names' with
        | error fault =>
            rw [hwalk] at hseek
            cases hseek
        | ok result =>
            rw [hwalk] at hseek
            obtain ⟨location, node?'⟩ := result
            cases hseek
            simp only [walk_of_agree hagree hcreates maxLinks hwalk]
            rfl
      · next lost names' hlost hclimb =>
        cases hseek
        exact absurd rfl hlost

theorem node?_insert (files : FileSystem) {location : Location} (hbelow : location ≠ [])
    (node : Node) : (files.insert location node).node? location = some node := by
  simp [node?, insert, hbelow]

theorem node?_insert_of_ne (files : FileSystem) {location other : Location}
    (hother : other ≠ location) (node : Node) :
    (files.insert location node).node? other = files.node? other := by
  have hkept : (fun entry : Location × Node =>
      decide ((entry.1 != location) = true ∧ (entry.1 == other) = true)) = (·.1 == other) := by
    funext entry
    by_cases hentry : entry.1 = other
    · simp [hentry, hother]
    · simp [hentry]
  unfold node? insert
  rw [List.find?_cons_of_neg (by simpa using hother.symm), List.find?_filter]
  rw [hkept]

theorem agree_insert {files : FileSystem} {location : Location} (hbelow : location ≠ [])
    (hdirectory : files.node? location ≠ some .directory)
    (hlink : ∀ target, files.node? location ≠ some (.link target)) (content : Bytes)
    (executable : Bool) : Agree files (files.insert location (.file content executable)) where
  directory {other} hnode := by
    by_cases hother : other = location
    · exact absurd (hother ▸ hnode) hdirectory
    · rwa [node?_insert_of_ne files hother]
  link {other target} hnode := by
    by_cases hother : other = location
    · exact absurd (hother ▸ hnode) (hlink target)
    · rwa [node?_insert_of_ne files hother]
  noLink {other target} hnode := by
    by_cases hother : other = location
    · rw [hother, node?_insert files hbelow] at hnode
      cases hnode
    · rwa [node?_insert_of_ne files hother] at hnode
  missing {other} hnode := by
    by_cases hother : other = location
    · rw [hother, node?_insert files hbelow] at hnode
      cases hnode
    · rwa [node?_insert_of_ne files hother] at hnode

end FileSystem

/-! ### A file that a path leads to -/

variable {path : Path} {location : Location} {host later : Host} {content? : Option Bytes}

/-- What a location holds, when that is a file or nothing. -/
def FileAt (location : Location) (host : Host) : Option Bytes → Prop
  | none => host.files.node? location = none
  | some content => ∃ executable, host.files.node? location = some (.file content executable)

/-- From where the process works, a path leads to a location. -/
def Leads (path : Path) (location : Location) (host : Host) : Prop :=
  host.files.findForWriting host.working path = .ok (⟨location, 0⟩, host.files.node? location)

instance (path : Path) (location : Location) (host : Host) : Decidable (Leads path location host) :=
  inferInstanceAs (Decidable (_ = _))

theorem FileAt.not_directory (hfile : FileAt location host content?) :
    host.files.node? location ≠ some .directory := by
  cases content? with
  | none => simp [show host.files.node? location = none from hfile]
  | some content =>
      obtain ⟨executable, hnode⟩ := hfile
      simp [hnode]

theorem FileAt.not_link (hfile : FileAt location host content?) (target : Path) :
    host.files.node? location ≠ some (.link target) := by
  cases content? with
  | none => simp [show host.files.node? location = none from hfile]
  | some content =>
      obtain ⟨executable, hnode⟩ := hfile
      simp [hnode]

theorem FileAt.ne_nil (hfile : FileAt location host content?) : location ≠ [] := by
  rintro rfl
  exact hfile.not_directory rfl

theorem Leads.find (hleads : Leads path location host) :
    host.files.find host.working path =
      match host.files.node? location with
      | none => .error .missing
      | some node => .ok (⟨location, 0⟩, node) := by
  rw [Leads, FileSystem.findForWriting] at hleads
  rw [FileSystem.find]
  split at hleads
  · cases hleads
  · next hshort =>
    have hseek : host.files.seekSteps false host.working path (FileSystem.steps path) =
        .ok (⟨location, 0⟩, host.files.node? location) :=
      FileSystem.seekSteps_of_agree (.refl _) (fun _ => rfl) hleads
    rw [if_neg hshort, FileSystem.seek, hseek]
    cases host.files.node? location <;> rfl

/-- An absolute path leads to the same place wherever the process works. -/
theorem Leads.of_agree (hleads : Leads path location host)
    (hagree : FileSystem.Agree host.files later.files)
    (hworking : Path.isAbsolute path = true ∨ later.working = host.working) :
    Leads path location later := by
  rw [Leads, FileSystem.findForWriting] at hleads ⊢
  split at hleads
  · cases hleads
  · next hshort =>
    rw [if_neg hshort, ← FileSystem.seekSteps_of_agree hagree id hleads]
    rcases hworking with habsolute | hworking
    · simp only [FileSystem.seekSteps, habsolute, if_true]
    · rw [hworking]

/-- From where it was walked before, a path leads to a file, or to where one may come to be;
everywhere else the files are what they were. -/
structure Confined (before : Host) (path : Path) (location : Location) (host : Host)
    (content? : Option Bytes) : Prop where
  leads : Leads path location host
  file : FileAt location host content?
  working : Path.isAbsolute path = true ∨ host.working = before.working
  elsewhere : ∀ other, other ≠ location → host.files.node? other = before.files.node? other

theorem Confined.of_files {before : Host} (hconfined : Confined before path location host content?)
    (hfiles : later.files = host.files)
    (hworking : Path.isAbsolute path = true ∨ later.working = before.working) :
    Confined before path location later content? where
  leads := by
    refine hconfined.leads.of_agree (hfiles ▸ .refl _) ?_
    rcases hconfined.working with habsolute | hhost
    · exact .inl habsolute
    · exact hworking.imp id (·.trans hhost.symm)
  file := by
    have hfile := hconfined.file
    cases content? <;> simpa only [FileAt, hfiles] using hfile
  working := hworking
  elsewhere other hother :=
    (congrArg (·.node? other) hfiles).trans (hconfined.elsewhere other hother)

theorem Confined.put {before : Host} (hconfined : Confined before path location host content?)
    (content : Bytes) (executable : Bool) :
    Confined before path location (host.put location (.file content executable))
      (some content) where
  leads := by
    have hfile := hconfined.file
    exact hconfined.leads.of_agree
      (FileSystem.agree_insert hfile.ne_nil hfile.not_directory hfile.not_link content executable)
      (.inr rfl)
  file := ⟨executable, FileSystem.node?_insert _ hconfined.file.ne_nil _⟩
  working := hconfined.working
  elsewhere other hother :=
    (FileSystem.node?_insert_of_ne _ hother _).trans (hconfined.elsewhere other hother)

/-- A host with children of any kind. -/
def platformWith (launch : Host → Launch → Except Fault (ChildRun Host)) : Platform Host :=
  { platform 0 with launch }

variable {launch : Host → Launch → Except Fault (ChildRun Host)}

theorem stores_confined (launch : Host → Launch → Except Fault (ChildRun Host))
    (before : Host) (path : Path) (location : Location) :
    (platformWith launch).Stores path (Confined before path location) where
  missing {host} hconfined := by
    have hnode : host.files.node? location = none := hconfined.file
    simp [Platform.read, platformWith, platform, openFile, hconfined.leads.find, hnode]
  read {host content} hconfined := by
    obtain ⟨executable, hnode⟩ := hconfined.file
    simp [Platform.read, platformWith, platform, openFile, hconfined.leads.find, hnode,
      Except.mapError]
  update {host content?} change hconfined := by
    have hleads := hconfined.leads
    rw [Leads] at hleads
    cases content? with
    | none =>
        have hnode : host.files.node? location = none := hconfined.file
        rw [hnode] at hleads
        refine ⟨host.put location (.file change.bytes false), ?_, ?_⟩
        · simp [platformWith, platform, Host.update, hleads]
        · simpa [Update.onto] using hconfined.put change.bytes false
    | some content =>
        obtain ⟨executable, hnode⟩ := hconfined.file
        rw [hnode] at hleads
        refine ⟨host.put location (.file (change.onto (some content)) executable), ?_,
          hconfined.put _ executable⟩
        simp [platformWith, platform, Host.update, hleads, Update.onto]

theorem spares_files (hchildren : ∀ host request child, launch host request = .ok child →
    child.world = host) (files : FileSystem) :
    (platformWith launch).Spares (·.files = files) where
  enter {host after directory} henter hfiles := by
    simp only [platformWith, platform, enter?] at henter
    split at henter <;> cases henter
    exact hfiles
  launch {host request child} hlaunch hfiles := by
    rwa [hchildren host request child hlaunch]

theorem world_launch (processId : Nat) (host : Host) (request : Launch) (child : ChildRun Host)
    (hlaunch : Host.launch processId host request = .ok child) : child.world = host := by
  unfold Host.launch at hlaunch
  split at hlaunch
  · cases hlaunch
  · split at hlaunch <;> cases hlaunch
    rfl
  · cases hlaunch

end CommandShell.Host
