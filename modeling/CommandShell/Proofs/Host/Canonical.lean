import CommandShell.Proofs.Host.Location

/-!
# The canonical form of a path

A walk ends at a location that lies below directories and is no link itself. The path that spells
such a location leads back to it, so a process that enters the canonical form of a path works where
that form says.
-/

namespace CommandShell

namespace Host.FileSystem

theorem slash_not_mem_of_mem_steps {path name : Text} (hname : name ∈ steps path) : '/' ∉ name := by
  have hpiece : name ∈ (Text.pieces (· == '/') path).filter (!·.isEmpty) ∨ name = [] := by
    unfold steps at hname
    simp only at hname
    split at hname
    · simpa using hname
    · exact .inl hname
  rcases hpiece with hpiece | rfl
  · intro hslash
    have hseparates := Text.not_separates_of_mem_pieces (List.mem_of_mem_filter hpiece) '/' hslash
    exact absurd hseparates (by decide)
  · exact List.not_mem_nil

theorem exists_pathOf_concat (location : Location) (name : Text) :
    ∃ front, pathOf (location ++ [name]) = front ++ name := by
  have hjoined : ∃ front, Text.joined "/" (location ++ [name]) = front ++ name := by
    induction location with
    | nil => exact ⟨[], Text.joined_singleton "/" name⟩
    | cons first rest ih =>
        obtain ⟨front, hfront⟩ := ih
        obtain ⟨second, others, hothers⟩ :=
          List.exists_cons_of_ne_nil (List.concat_ne_nil name rest)
        rw [List.cons_append, hothers, Text.joined_cons_cons, ← hothers, hfront]
        exact ⟨_, (List.append_assoc _ _ _).symm⟩
  obtain ⟨front, hfront⟩ := hjoined
  exact ⟨'/' :: front, congrArg ('/' :: ·) hfront⟩

/-! ### Where walks end -/

variable {files : FileSystem} {creating : Bool} {location found : Location} {names : List Text}
  {node : Node}

theorem IsEntry.anywhere {name : Text} {rest : List Text} (hentry : IsEntry creating name rest)
    (others : List Text) : IsEntry false name others :=
  ⟨hentry.moves, hentry.down, rfl, hentry.short⟩

/-- A location below directories at which there is no link. -/
inductive Solid (files : FileSystem) : Location → Prop
  | root : Solid files []
  | child {parent : Location} {name : Text} (hparent : Solid files parent)
      (hdirectory : files.node? parent = some .directory) (hentry : IsEntry false name [])
      (hslash : '/' ∉ name)
      (hlink : ∀ target, files.node? (parent ++ [name]) ≠ some (.link target)) :
      Solid files (parent ++ [name])

theorem Solid.dropLast (hsolid : Solid files location) : Solid files location.dropLast := by
  cases hsolid with
  | root => exact .root
  | child hparent => rwa [List.dropLast_concat]

theorem solid_of_walkWith
    {follow : Location → List Text → Except Fault (Location × Option Node)}
    (hfollow : ∀ {location names found node}, Solid files location →
      (∀ name ∈ names, '/' ∉ name) → follow location names = .ok (found, some node) →
        Solid files found)
    (hsolid : Solid files location) (hnames : ∀ name ∈ names, '/' ∉ name)
    (hwalk : files.walkWith creating follow location names = .ok (found, some node)) :
    Solid files found := by
  induction names generalizing location with
  | nil =>
      rw [walkWith] at hwalk
      obtain ⟨rfl, -⟩ := Prod.mk.inj (Except.ok.inj hwalk)
      exact hsolid
  | cons name rest ih =>
      obtain ⟨hslash, hrest⟩ := List.forall_mem_cons.mp hnames
      obtain ⟨hdirectory, hstep⟩ := step_of_walkWith hwalk
      cases hstep with
      | stays _ hnext => exact ih hsolid hrest hnext
      | up _ _ hnext => exact ih hsolid.dropLast hrest hnext
      | ends _ _ _ hresult => cases hresult
      | @follows hentry target hnode hnext =>
          have hall : ∀ name ∈ steps target ++ rest, '/' ∉ name :=
            List.forall_mem_append.mpr ⟨fun _ => slash_not_mem_of_mem_steps, hrest⟩
          split at hnext
          · exact hfollow .root hall hnext
          · exact hfollow hsolid hall hnext
      | enters hentry hnode hlink hnext =>
          refine ih (.child hsolid hdirectory (hentry.anywhere []) hslash ?_) hrest hnext
          rintro target htarget
          exact hlink target (Option.some.inj (hnode.symm.trans htarget))

theorem solid_of_walk {links : Nat} (hsolid : Solid files location)
    (hnames : ∀ name ∈ names, '/' ∉ name)
    (hwalk : files.walk creating links location names = .ok (found, some node)) :
    Solid files found := by
  induction links generalizing location names found node with
  | zero => exact solid_of_walkWith (fun _ _ hfollow => by cases hfollow) hsolid hnames hwalk
  | succ links ih => exact solid_of_walkWith ih hsolid hnames hwalk

/-! ### The way back -/

/-- A walk from the root passes through a solid location when its names stand in front. -/
theorem Solid.walkWith {follow : Location → List Text → Except Fault (Location × Option Node)}
    (hsolid : Solid files location) {result : Location × Option Node}
    (hwalk : files.walkWith false follow location names = .ok result) :
    files.walkWith false follow [] (location ++ names) = .ok result := by
  induction hsolid generalizing names with
  | root => exact hwalk
  | @child parent name _ hdirectory hentry _ hlink ih =>
      rw [List.append_assoc]
      refine ih (Step.walkWith hdirectory ?_)
      have hname := hentry.anywhere names
      cases hnode : files.node? (parent ++ [name]) with
      | some node =>
          refine .enters hname hnode ?_ hwalk
          rintro target rfl
          exact hlink target hnode
      | none =>
          cases names with
          | nil =>
              rw [FileSystem.walkWith, hnode] at hwalk
              exact .ends hname hnode rfl (Except.ok.inj hwalk)
          | cons next rest =>
              rw [(step_of_walkWith hwalk).1] at hnode
              cases hnode

theorem Solid.walk (hsolid : Solid files location) (links : Nat) :
    files.walk false links [] location = .ok (location, files.node? location) := by
  have hend {follow} : files.walkWith false follow location [] =
      .ok (location, files.node? location) := rfl
  rw [← List.append_nil location]
  cases links <;> exact hsolid.walkWith (by rw [List.append_nil]; exact hend)

theorem Solid.steps_pathOf (hsolid : Solid files location) (hbelow : location ≠ []) :
    steps (pathOf location) = location := by
  have hnames : ∀ name ∈ location, '/' ∉ name ∧ name.isEmpty = false := by
    clear hbelow
    induction hsolid with
    | root => exact List.forall_mem_nil _
    | child _ _ hentry hslash _ ih =>
        refine List.forall_mem_append.mpr ⟨ih, List.forall_mem_singleton.mpr ⟨hslash, ?_⟩⟩
        exact (Bool.or_eq_false_iff.mp hentry.moves).1
  have hlast : (pathOf location).getLast? ≠ some '/' := by
    cases hsolid with
    | root => exact absurd rfl hbelow
    | @child parent name =>
        obtain ⟨hslash, hfilled⟩ := hnames name (by simp)
        obtain ⟨front, hfront⟩ := exists_pathOf_concat parent name
        rw [hfront, List.getLast?_append_of_ne_nil _ (List.isEmpty_eq_false_iff.mp hfilled)]
        exact fun hend => hslash (List.mem_of_getLast? hend)
  have hjoined : Text.pieces (· == '/') (Text.joined "/" location) = location :=
    Text.pieces_joined hbelow fun name hname => (hnames name hname).1
  have hpieces : Text.pieces (· == '/') (pathOf location) = [] :: location := by
    rw [pathOf, Text.pieces, if_pos (beq_self_eq_true '/'), hjoined]
  rw [steps, hpieces, if_neg hlast, List.filter_cons_of_neg (by decide)]
  exact List.filter_eq_self.mpr fun name hname => by simp [(hnames name hname).2]

theorem Solid.walk_pathOf (hsolid : Solid files location) (links : Nat) :
    files.walk false links [] (steps (pathOf location)) =
      .ok (location, files.node? location) := by
  by_cases hbelow : location = []
  · subst hbelow
    have hsteps : steps (pathOf []) = [[]] := by decide
    rw [hsteps]
    cases links <;> rfl
  · rw [hsolid.steps_pathOf hbelow]
    exact hsolid.walk links

end Host.FileSystem

namespace Host

open FileSystem

variable {host after : Host} {path directory : Path} {location : Location}

theorem FileSystem.seek_of_isAbsolute {files : FileSystem} {working : Place}
    (habsolute : Path.isAbsolute path = true) {place : Place} {node? : Option Node}
    (hseek : files.seek working path = .ok (place, node?)) :
    files.walk false maxLinks [] (steps path) = .ok (place.location, node?) ∧ place.lost = 0 := by
  unfold seek seekSteps at hseek
  rw [if_pos habsolute] at hseek
  split at hseek
  · cases hseek
  split at hseek
  · cases hseek
  simp only [walkFrom, climb] at hseek
  cases hwalk : files.walk false maxLinks [] (steps path) with
  | error fault => simp [hwalk, Except.map] at hseek
  | ok result =>
      rw [hwalk] at hseek
      obtain ⟨rfl, rfl⟩ := Prod.mk.inj (Except.ok.inj hseek)
      exact ⟨rfl, rfl⟩

theorem exists_solid_of_canonical? (habsolute : Path.isAbsolute path = true)
    (hcanonical : host.canonical? path = some directory) :
    ∃ location, Solid host.files location ∧ directory = pathOf location := by
  rw [canonical?, habsolute, Bool.not_true, Bool.false_and, if_neg Bool.false_ne_true] at hcanonical
  split at hcanonical
  · next place node hseek =>
    obtain ⟨hwalk, -⟩ := seek_of_isAbsolute habsolute hseek
    refine ⟨place.location, ?_, (Option.some.inj hcanonical).symm⟩
    exact solid_of_walk .root (fun name => slash_not_mem_of_mem_steps) hwalk
  · cases hcanonical

theorem seek_of_enter? (henter : host.enter? path = some after) :
    host.files.seek host.working path = .ok (after.working, some .directory) ∧
      after = { host with working := after.working } := by
  unfold enter? find at henter
  split at henter
  · next place hfind =>
    obtain rfl := Option.some.inj henter
    split at hfind
    · cases hfind
    split at hfind
    · cases hfind
    · cases hfind
    · next found node hseek =>
      obtain ⟨rfl, rfl⟩ := Prod.mk.inj (Except.ok.inj hfind)
      exact ⟨hseek, rfl⟩
  · cases henter

theorem working_of_enter? (hsolid : Solid host.files location)
    (henter : host.enter? (pathOf location) = some after) : after.working = ⟨location, 0⟩ := by
  obtain ⟨hwalk, hlost⟩ := seek_of_isAbsolute rfl (seek_of_enter? henter).1
  have hback := (hsolid.walk_pathOf maxLinks).symm.trans hwalk
  obtain ⟨hlocation, -⟩ := Prod.mk.inj (Except.ok.inj hback)
  obtain ⟨files, there, lost⟩ := after
  rw [Place.mk.injEq]
  exact ⟨hlocation.symm, hlost⟩

/-- A process that enters the canonical form of a path works where that form says. -/
theorem workingDirectory?_of_enter? (habsolute : Path.isAbsolute path = true)
    (hcanonical : host.canonical? path = some directory)
    (henter : host.enter? directory = some after) : after.workingDirectory? = some directory := by
  obtain ⟨location, hsolid, rfl⟩ := exists_solid_of_canonical? habsolute hcanonical
  rw [workingDirectory?, working_of_enter? hsolid henter]
  rfl

/-- The canonical form of a path is its own, as long as it can be entered. -/
theorem canonical?_canonical (habsolute : Path.isAbsolute path = true)
    (hcanonical : host.canonical? path = some directory)
    (henter : host.enter? directory = some after) :
    Path.isAbsolute directory = true ∧ host.canonical? directory = some directory := by
  obtain ⟨location, hsolid, rfl⟩ := exists_solid_of_canonical? habsolute hcanonical
  have hself : Path.isAbsolute (pathOf location) = true := rfl
  refine ⟨hself, ?_⟩
  rw [canonical?, hself, Bool.not_true, Bool.false_and, if_neg Bool.false_ne_true,
    (seek_of_enter? henter).1]
  simp only [working_of_enter? hsolid henter]

/-! ### Where the process works -/

theorem FileSystem.seek_congr (files : FileSystem) (working other : Place)
    (habsolute : Path.isAbsolute path = true) :
    files.seek working path = files.seek other path := by
  rw [seek, seek, seekSteps, seekSteps, if_pos habsolute, if_pos habsolute]

/-- Where the process works makes no difference to an absolute path. -/
theorem absolute_of_enter? (henter : host.enter? directory = some after)
    (habsolute : Path.isAbsolute path = true) :
    after.canonical? path = host.canonical? path ∧
      (after.enter? path).isSome = (host.enter? path).isSome := by
  obtain ⟨-, hafter⟩ := seek_of_enter? henter
  rw [hafter]
  constructor
  · rw [canonical?, canonical?, habsolute, Bool.not_true, Bool.false_and,
      if_neg Bool.false_ne_true, Bool.false_and, if_neg Bool.false_ne_true,
      host.files.seek_congr after.working host.working habsolute]
  · rw [enter?, enter?, find, find, host.files.seek_congr after.working host.working habsolute]

end Host

end CommandShell
