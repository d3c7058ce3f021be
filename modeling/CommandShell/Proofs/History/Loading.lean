import CommandShell.Host
import CommandShell.Proofs.History.Records
import CommandShell.Proofs.History.Window

/-!
# What a load puts in the place of the entries

A load that is made leaves the newest records of the file and nothing to be saved, whatever the
history held before. It counts a missing file as an empty one, but then it leaves the history as it
was: lines that were pushed before stay, and so does their number.
-/

namespace CommandShell

/-- What is at a path: a file that can be read to its end, or nothing. -/
def Platform.Finds {World : Type} (platform : Platform World) (world : World) (path : Path) :
    Option Bytes → Prop
  | none => platform.read world path = .error (.opening .missing)
  | some content => platform.read world path = .ok content

namespace History

/-- The records of a file are all that the history holds, and they are counted. -/
structure Replaces (history : History) (records : List Text)
    (result : History × Except Fault Nat) : Prop where
  entries_eq : result.1.entries = number (newest history.limit records)
  outcome_eq : result.2 = .ok result.1.entries.length
  unsaved_eq : result.1.unsaved = 0

variable {World : Type} {platform : Platform World} {world : World} {path : Path}
  {history : History}

theorem load_of_finds_some (hpath : history.path? = some path) {content : Bytes}
    (hfinds : platform.Finds world path (some content)) :
    Replaces history (Record.parse content) (history.load platform world) := by
  have hread : platform.read world path = .ok content := hfinds
  have hload : history.load platform world =
      (history.loaded (Record.parse content),
        .ok (history.loaded (Record.parse content)).entries.length) := by
    rw [load, hpath]
    simp only [hread]
  rw [hload]
  exact ⟨rfl, rfl, rfl⟩

theorem load_of_finds_none (hpath : history.path? = some path)
    (hfinds : platform.Finds world path none) :
    history.load platform world = (history, .ok 0) := by
  have hread : platform.read world path = .error (.opening .missing) := hfinds
  rw [load, hpath]
  simp only [hread, if_true]

/-- A history that is left as it was holds no record of a missing file exactly when it was empty. -/
theorem replaces_nil_iff :
    Replaces history [] (history, .ok 0) ↔ history.entries = [] ∧ history.unsaved = 0 := by
  have hnone : number (newest history.limit []) = [] := by
    rw [newest_of_length_le (Nat.zero_le _)]
    rfl
  constructor
  · intro hreplaces
    exact ⟨hreplaces.entries_eq.trans hnone, hreplaces.unsaved_eq⟩
  · rintro ⟨hentries, hunsaved⟩
    exact ⟨hentries.trans hnone.symm, by rw [hentries]; rfl, hunsaved⟩

theorem finds_of_load_eq_ok (hpath : history.path? = some path) {count : Nat}
    (hload : (history.load platform world).2 = .ok count) :
    ∃ content?, platform.Finds world path content? := by
  cases hread : platform.read world path with
  | ok content => exact ⟨some content, hread⟩
  | error fault =>
      by_cases hmissing : fault = .opening .missing
      · rw [hmissing] at hread
        exact ⟨none, hread⟩
      · rw [load, hpath] at hload
        simp only [hread, if_neg hmissing] at hload
        exact nomatch hload

/-- A load is made when the file can be read or is missing. It replaces the entries by the newest
records, unless the file is missing and the history was not empty. -/
theorem load_replaces_iff (hpath : history.path? = some path) :
    ((∃ count, (history.load platform world).2 = .ok count) ↔
        ∃ content?, platform.Finds world path content?) ∧
      ∀ content?, platform.Finds world path content? →
        (Replaces history (Record.parse (content?.getD [])) (history.load platform world) ↔
            (content? = none → history.entries = [] ∧ history.unsaved = 0)) ∧
          (content? = none → history.load platform world = (history, .ok 0)) := by
  refine ⟨⟨?_, ?_⟩, ?_⟩
  · rintro ⟨count, hload⟩
    exact finds_of_load_eq_ok hpath hload
  · rintro ⟨content?, hfinds⟩
    cases content? with
    | none => exact ⟨0, congrArg Prod.snd (load_of_finds_none hpath hfinds)⟩
    | some content => exact ⟨_, (load_of_finds_some hpath hfinds).outcome_eq⟩
  · intro content? hfinds
    cases content? with
    | none =>
        have hload := load_of_finds_none hpath hfinds
        rw [Option.getD_none, Record.parse_nil, hload, replaces_nil_iff]
        exact ⟨⟨fun hempty _ => hempty, fun hempty => hempty rfl⟩, fun _ => rfl⟩
    | some content =>
        exact ⟨iff_of_true (load_of_finds_some hpath hfinds) nofun, nofun⟩

/-- A history of two lines, one of them not saved, reads three records into a window of two. -/
theorem load_replaces_iff_rewritten :
    let content := Utf8.encode "a\r\r\n\nb\nc".toList
    let world := Host.bare.put [['h']] (.file content false)
    let history := ((new (some "/h") 2 .onExit).record "x").record "y"
    history.path? = some "/h".toList ∧ (Host.platform 2).Finds world "/h" (some content) ∧
      Replaces history ["a".toList, "b".toList, "c".toList]
        (history.load (Host.platform 2) world) := by
  intro content world history
  have hfinds : (Host.platform 2).Finds world "/h" (some content) := by
    show (Host.platform 2).read world "/h" = .ok content
    decide +kernel
  have hrecords : Record.parse content = ["a".toList, "b".toList, "c".toList] := by
    decide +kernel
  have hpath : history.path? = some "/h".toList := rfl
  have hload : Replaces history (Record.parse ((some content).getD []))
      (history.load (Host.platform 2) world) :=
    ((load_replaces_iff hpath).2 (some content) hfinds).1.mpr nofun
  rw [Option.getD_some, hrecords] at hload
  exact ⟨hpath, hfinds, hload⟩

/-- A line that was pushed outlives a load of a file that is missing. -/
theorem load_missing_after_push :
    let pushed := (new (some "h".toList) 10 .onExit).push (Host.platform 2) Host.bare "a"
    let loaded := pushed.2.1.load (Host.platform 2) pushed.1
    pushed.2.2 = .ok () ∧ (Host.platform 2).Finds pushed.1 "h" none ∧ loaded.2 = .ok 0 ∧
      loaded.1.entries = [⟨0, "a".toList⟩] ∧ loaded.1.unsaved = 1 ∧
        ¬ Replaces pushed.2.1 [] loaded := by
  intro pushed loaded
  have hfinds : (Host.platform 2).Finds pushed.1 "h" none := by
    show (Host.platform 2).read pushed.1 "h" = .error (.opening .missing)
    decide +kernel
  have hentries : loaded.1.entries = [⟨0, "a".toList⟩] := by decide +kernel
  refine ⟨by decide +kernel, hfinds, by decide +kernel, hentries, by decide +kernel, ?_⟩
  intro hreplaces
  exact List.cons_ne_nil _ _ (hentries.symm.trans hreplaces.entries_eq)

end History

end CommandShell
