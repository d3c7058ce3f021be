import CommandShell.Proofs.History.Course

/-!
# Lines put behind the file

A push on a file with room left puts its line behind the content and looks at nothing else. So the
line runs into a tail that some other writer left; and a line that was refused is not brought along
by the next one, but waits for the file to be written anew.
-/

namespace CommandShell

/-- A world of one file, with what becomes of the changes that are still to come: all behind the
listed ones are made. -/
structure Drive where
  content? : Option Bytes
  grants : List Bool

namespace Drive

def update (drive : Drive) (change : Update) : Drive × Except FileFault Unit :=
  let rest := drive.grants.tail
  if drive.grants.head?.getD true then
    ({ content? := some (change.onto drive.content?), grants := rest }, .ok ())
  else
    ({ drive with grants := rest }, .error (.opening .denied))

/-- Every path leads to the one file. -/
def platform : Platform Drive where
  isRegular drive _ := drive.content?.isSome
  canonical? _ _ := none
  enter? _ _ := none
  workingDirectory? _ := none
  openFile drive _ :=
    match drive.content? with
    | none => .error .missing
    | some content => .ok fun later => .ok (later.content?.getD content)
  update drive _ change := drive.update change
  launch _ _ := .error .missing

theorem mayStore (path : Path) : platform.MayStore path (·.content? = ·) where
  missing hholds := by
    simp [Platform.read, platform, hholds]
  read hholds := by
    simp [Platform.read, platform, hholds, Except.mapError]
  update {drive content?} change hholds := by
    by_cases hgranted : drive.grants.head?.getD true = true
    · exact ⟨⟨some (change.onto drive.content?), drive.grants.tail⟩,
        .inl ⟨if_pos hgranted, congrArg (fun content? => some (change.onto content?)) hholds⟩⟩
    · exact ⟨⟨drive.content?, drive.grants.tail⟩, .inr ⟨.denied, if_neg hgranted, hholds⟩⟩

end Drive

namespace History

open Course

variable {World : Type} {platform : Platform World} {path : Path} {limit : Nat}
  {holds : World → Option Bytes → Prop} {texts lines : List Text} {content : Bytes}
  {content? : Option Bytes} {course : Course World}

/-! ### Behind a tail -/

theorem Keeps.push_of_room (hmay : platform.MayStore path holds)
    (hkeeps : Keeps path limit .eachLine texts course.history)
    (hholds : holds course.world (some content)) (hroom : course.history.persisted < limit)
    {line : Text} (hline : Recordable line)
    (hfailures : (course.push platform line).failures = course.failures) :
    (course.push platform line).history = (course.history.record line).appended ∧
      holds (course.push platform line).world
        (some (content ++ Update.bytes { replaces := false, lines := [line] })) := by
  rcases hpush : course.history.push platform course.world line with ⟨after, next, outcome⟩
  have hpushed := pushed_of_push hmay hholds hkeeps.path_eq hkeeps.sync_eq hkeeps.replaces
    hline.filled hpush
  rw [Course.push, hpush] at hfailures ⊢
  cases hpushed with
  | rewritten hfull hafter =>
      rw [hkeeps.limit_eq] at hfull
      exact absurd hroom (Nat.not_lt.mpr hfull)
  | appended hroom hafter => exact ⟨rfl, hafter⟩
  | refused hafter => exact absurd hfailures (Nat.succ_ne_self _)

theorem Keeps.holds_pushAll_of_room (hlimit : 1 ≤ limit) (hmay : platform.MayStore path holds)
    (hkeeps : Keeps path limit .eachLine texts course.history)
    (hholds : holds course.world (some content))
    (hroom : course.history.persisted + lines.length ≤ limit)
    (hlines : ∀ line ∈ lines, Recordable line)
    (hfailures : (course.pushAll platform lines).failures = course.failures) :
    holds (course.pushAll platform lines).world
      (some (content ++ Update.bytes { replaces := false, lines })) := by
  induction lines generalizing texts content course with
  | nil => simpa [Update.bytes, Course.pushAll] using hholds
  | cons line rest ih =>
      obtain ⟨hline, hrest⟩ := List.forall_mem_cons.mp hlines
      have hlater : ((course.push platform line).pushAll platform rest).failures =
          course.failures := hfailures
      have hfirst : (course.push platform line).failures = course.failures :=
        Nat.le_antisymm (hlater ▸ failures_le_pushAll platform _ rest)
          (failures_le_push platform course line)
      rw [List.length_cons] at hroom
      obtain ⟨hhistory, hafter⟩ := hkeeps.push_of_room hmay hholds (by omega) hline hfirst
      have hnext : Keeps path limit .eachLine (texts ++ [line])
          (course.push platform line).history :=
        hhistory ▸ (hkeeps.record hlimit hline).appended
      have hpersisted : (course.push platform line).history.persisted =
          course.history.persisted + 1 := congrArg (·.persisted) hhistory
      have hlast := ih hnext hafter (by omega) hrest (hlater.trans hfirst.symm)
      rwa [List.append_assoc, ← Update.bytes_append, List.singleton_append] at hlast

/-- Lines pushed into the room that is left are the last bytes of the file. They follow the old
records as records of their own when nothing stood behind the last line feed, and only then. -/
theorem read_after_appends (hlimit : 1 ≤ limit) (hmay : platform.MayStore path holds)
    {world : World} (hholds : holds world (some content))
    (hroom : (Record.parse content).length + lines.length ≤ limit)
    (hlines : ∀ line ∈ lines, Recordable line)
    (hfailures :
      ((start platform path limit .eachLine world).pushAll platform lines).failures = 0) :
    let last := (start platform path limit .eachLine world).pushAll platform lines
    let written := content ++ Update.bytes { replaces := false, lines }
    platform.read last.world path = .ok written ∧
      (Record.parse written = Record.parse content ++ lines ↔
        lines = [] ∨ Record.Terminated content) := by
  intro last written
  have hhistory : (start platform path limit .eachLine world).history =
      (new (some path) limit .eachLine).loaded (Record.parse content) :=
    congrArg Prod.fst (load_of_reads hmay.toReads hholds limit .eachLine)
  have hkeeps : Keeps path limit .eachLine (Record.parse content)
      (start platform path limit .eachLine world).history :=
    hhistory ▸ keeps_loaded hlimit path .eachLine content
  have hpersisted : (start platform path limit .eachLine world).history.persisted =
      (Record.parse content).length := congrArg (·.persisted) hhistory
  have hafter := hkeeps.holds_pushAll_of_room hlimit hmay hholds (hpersisted ▸ hroom) hlines
    hfailures
  exact ⟨hmay.read hafter, Record.parse_append_bytes_iff hlines false⟩

theorem read_after_appends_terminated :
    let world := Host.bare.put [['h']] (.file (Utf8.encode "\n\x00é\n".toList) false)
    let lines := ["b".toList, "c d".toList]
    let last := (start (Host.platform 2) "/h" 3 .eachLine world).pushAll (Host.platform 2) lines
    let written := Utf8.encode "\n\x00é\n".toList ++ Update.bytes { replaces := false, lines }
    ((Record.parse (Utf8.encode "\n\x00é\n".toList)).length + lines.length ≤ 3 ∧
      (∀ line ∈ lines, Recordable line) ∧ last.failures = 0) ∧
    (Host.platform 2).read last.world "/h" = .ok written ∧
      (Record.parse written = Record.parse (Utf8.encode "\n\x00é\n".toList) ++ lines ↔
        lines = [] ∨ Record.Terminated (Utf8.encode "\n\x00é\n".toList)) := by
  intro world lines last written
  have hname : Host.FileSystem.IsName ['h'] := ⟨by decide, by decide, by decide, by decide⟩
  have hmay := (Host.stores_root hname 2).mayStore
  have hholds : Host.HoldsInRoot ['h'] world (some (Utf8.encode "\n\x00é\n".toList)) :=
    ⟨false, rfl⟩
  have hroom : (Record.parse (Utf8.encode "\n\x00é\n".toList)).length + lines.length ≤ 3 := by
    decide +kernel
  have hlines : ∀ line ∈ lines, Recordable line := by
    simp only [recordable_iff, lines]
    decide
  have hfailures : last.failures = 0 := by decide +kernel
  exact ⟨⟨hroom, hlines, hfailures⟩,
    read_after_appends (by decide) hmay hholds hroom hlines hfailures⟩

/-- A record without a line feed behind it is lost to the first line that is pushed. -/
theorem parse_after_append_to_tail :
    let world := Host.bare.put [['h']] (.file (Utf8.encode ['a']) false)
    let last := (start (Host.platform 2) "/h" 10 .eachLine world).push (Host.platform 2) "b"
    Record.parse (Utf8.encode ['a']) = ["a".toList] ∧ last.failures = 0 ∧
      (last.world.contentOf? "/h").map Record.parse = some ["ab".toList] := by
  decide +kernel

/-! ### After a refusal -/

/-- The file brings back what the history kept when no push was refused since it was last written
anew. After a refusal too few lines come back, as long as the file is not full. -/
theorem load_after_refusals (hlimit : 1 ≤ limit) (hmay : platform.MayStore path holds)
    {world : World} (hholds : holds world content?) (hend : Record.Terminated (content?.getD []))
    (hlines : ∀ line ∈ lines, Recordable line) (mode : Sync) :
    let last := (start platform path limit .eachLine world).pushAll platform lines
    let fresh := (new (some path) limit mode).load platform last.world
    ∃ count, fresh.2 = .ok count ∧
      (last.overdue = false →
        count = last.history.entries.length ∧ fresh.1.entries = last.history.entries) ∧
      (last.overdue = true → count < limit → count < last.history.entries.length) := by
  intro last fresh
  obtain ⟨content?', hsound⟩ :=
    (sound_start hlimit hmay.toReads hholds fun _ => hend).pushAll hlimit hmay hlines
  have hfresh : fresh = ((new (some path) limit mode).loaded (Record.parse (content?'.getD [])),
      .ok (min limit (Record.parse (content?'.getD [])).length)) := by
    rw [← (keeps_loaded hlimit path mode (content?'.getD [])).length_entries]
    exact load_of_reads hmay.toReads hsound.holds limit mode
  refine ⟨_, congrArg Prod.snd hfresh, fun hoverdue => ?_, fun hoverdue hshort => ?_⟩
  · obtain ⟨hcount, hentries⟩ :=
      load_of_inStep hmay.toReads hsound.keeps hsound.holds (hsound.inStep rfl hoverdue) mode hlimit
    exact ⟨Except.ok.inj ((congrArg Prod.snd hfresh).symm.trans hcount), hentries⟩
  · have hbehind := hsound.behind hoverdue
    rw [hsound.keeps.length_entries]
    omega

/-- The second of three pushes is refused; the third makes up for it when the file is full. -/
theorem load_after_refusals_second :
    let drive : Drive := ⟨some (Utf8.encode "x\n".toList), [true, false, true]⟩
    let lines := ["a".toList, "b".toList, "c".toList]
    let last := fun limit => (start Drive.platform "h" limit .eachLine drive).pushAll
      Drive.platform lines
    let fresh := fun limit => (new (some "h".toList) limit .onExit).load Drive.platform
      (last limit).world
    ((∀ line ∈ lines, Recordable line) ∧ (last 2).overdue = false ∧ (last 5).overdue = true) ∧
    ∀ limit ∈ [2, 5], ∃ count, (fresh limit).2 = .ok count ∧
      ((last limit).overdue = false → count = (last limit).history.entries.length ∧
        (fresh limit).1.entries = (last limit).history.entries) ∧
      ((last limit).overdue = true → count < limit →
        count < (last limit).history.entries.length) := by
  intro drive lines last fresh
  have hlines : ∀ line ∈ lines, Recordable line := by
    simp only [recordable_iff, lines]
    decide
  refine ⟨⟨hlines, by decide +kernel, by decide +kernel⟩, fun limit hmember => ?_⟩
  have hlimit : 1 ≤ limit := by
    revert limit
    decide
  have hend : Record.Terminated (drive.content?.getD []) := by decide +kernel
  exact load_after_refusals hlimit (Drive.mayStore "h") rfl hend hlines .onExit

/-- A push that is refused while the directory of the file is missing does not reach the file with
the one that is made when it is there. -/
theorem load_after_refused_append :
    let refused := (start (Host.platform 2) "/d/h" 10 .eachLine Host.bare).push
      (Host.platform 2) "a"
    let last := { refused with world := refused.world.makeDirectories "/d" }.push
      (Host.platform 2) "b"
    let fresh := (new (some "/d/h".toList) 10 .eachLine).load (Host.platform 2) last.world
    refused.failures = 1 ∧ last.failures = 1 ∧
      last.history.lines = ["a".toList, "b".toList] ∧ fresh.1.lines = ["b".toList] := by
  decide +kernel

end History

end CommandShell
