import CommandShell.Proofs.History.Extending

/-!
# What holds of every history

Whatever is asked of a history and whatever becomes of its file, its entries are numbered by their
places, there are no more of them than the window holds, and no more than all of them are counted as
unsaved. So nothing is ever taken away from a number that is smaller, and a line that is pushed
stands at the end of the window, also when it does not reach the file.
-/

namespace CommandShell.History

structure Regular (history : History) : Prop where
  limit_pos : 1 ≤ history.limit
  length_le : history.entries.length ≤ history.limit
  index_eq : ∀ (place : Nat) (entry : Entry), history.entries[place]? = some entry →
    entry.index = place
  filled : ∀ entry ∈ history.entries, entry.line ≠ []
  unsaved_le : history.unsaved ≤ history.entries.length

/-- The differences that operations take are those of a number and one that is not larger. -/
structure InRange (history : History) : Prop where
  /-- What a full window drops in front of a new line, it has. -/
  dropped : history.limit ≤ history.entries.length →
    history.limit ≤ history.entries.length + 1 ∧
      history.entries.length + 1 - history.limit ≤ history.entries.length
  /-- The entries that a save leaves out are some of those there are. -/
  leftOut : history.unsaved ≤ history.entries.length

/-- What a change leaves alone that touches the file, and no line of the window. -/
structure SameWindow (before after : History) : Prop where
  limit_eq : after.limit = before.limit
  entries_eq : after.entries = before.entries
  unsaved_le : after.unsaved ≤ before.unsaved

variable {history : History}

/-! ### Numbers and places -/

theorem index_eq_iff {entries : List Entry} :
    (∀ (place : Nat) (entry : Entry), entries[place]? = some entry → entry.index = place) ↔
      entries = number (entries.map (·.line)) := by
  constructor
  · intro hindex
    apply List.ext_getElem?
    intro place
    rw [number, List.getElem?_mapIdx, List.getElem?_map, Option.map_map]
    cases hentry : entries[place]? with
    | none => rfl
    | some entry =>
        obtain rfl := hindex place entry hentry
        rfl
  · intro hnumber place entry hentry
    rw [hnumber, number, List.getElem?_mapIdx] at hentry
    obtain ⟨line, -, rfl⟩ := Option.map_eq_some_iff.mp hentry
    rfl

theorem Regular.entries_eq (hregular : history.Regular) : history.entries = number history.lines :=
  index_eq_iff.mp hregular.index_eq

/-- A history whose entries were numbered anew. -/
theorem regular_of_number {lines : List Text} (hlimit : 1 ≤ history.limit)
    (hentries : history.entries = number lines) (hlength : lines.length ≤ history.limit)
    (hfilled : ∀ line ∈ lines, line ≠ []) (hunsaved : history.unsaved ≤ lines.length) :
    history.Regular where
  limit_pos := hlimit
  length_le := by rwa [hentries, length_number]
  index_eq := index_eq_iff.mpr (by rw [hentries, lines_number])
  filled entry hentry := by
    refine hfilled entry.line ?_
    rw [← lines_number lines, ← hentries]
    exact List.mem_map_of_mem hentry
  unsaved_le := by rwa [hentries, length_number]

theorem Regular.filled_lines (hregular : history.Regular) : ∀ line ∈ history.lines, line ≠ [] :=
  List.forall_mem_map.mpr hregular.filled

/-! ### Changes of a history -/

theorem SameWindow.refl (history : History) : SameWindow history history :=
  ⟨rfl, rfl, Nat.le_refl _⟩

theorem sameWindow_saved (history : History) : SameWindow history history.saved :=
  ⟨rfl, rfl, Nat.zero_le _⟩

theorem sameWindow_appended (history : History) : SameWindow history history.appended :=
  ⟨rfl, rfl, Nat.zero_le _⟩

theorem Regular.of_sameWindow (hregular : history.Regular) {next : History}
    (hsame : SameWindow history next) : next.Regular where
  limit_pos := hsame.limit_eq ▸ hregular.limit_pos
  length_le := by
    rw [hsame.entries_eq, hsame.limit_eq]
    exact hregular.length_le
  index_eq := hsame.entries_eq ▸ hregular.index_eq
  filled := hsame.entries_eq ▸ hregular.filled
  unsaved_le := by
    rw [hsame.entries_eq]
    exact hsame.unsaved_le.trans hregular.unsaved_le

theorem regular_new (path? : Option Path) (limit : Nat) (sync : Sync) :
    (new path? limit sync).Regular where
  limit_pos := Nat.le_max_right limit 1
  length_le := Nat.zero_le _
  index_eq := nofun
  filled := nofun
  unsaved_le := Nat.le_refl 0

theorem Regular.loaded (hregular : history.Regular) {records : List Text}
    (hfilled : ∀ record ∈ records, record ≠ []) : (history.loaded records).Regular := by
  refine regular_of_number hregular.limit_pos rfl (length_newest_le _ _) ?_ (Nat.zero_le _)
  intro line hline
  exact hfilled line (mem_of_mem_newest hline)

theorem Regular.entries_record (hregular : history.Regular) (line : Text) :
    (history.record line).entries = number (newest history.limit (history.lines ++ [line])) :=
  History.entries_record hregular.limit_pos hregular.entries_eq line

theorem Regular.record (hregular : history.Regular) {line : Text} (hline : line ≠ []) :
    (history.record line).Regular := by
  have hentries := hregular.entries_record line
  refine regular_of_number hregular.limit_pos hentries ?_ ?_ ?_
  · exact length_newest_le _ _
  · intro other hother
    rcases List.mem_append.mp (mem_of_mem_newest hother) with hearlier | hlast
    · exact hregular.filled_lines other hearlier
    · rwa [List.mem_singleton.mp hlast]
  · rw [← length_number, ← hentries]
    exact Nat.min_le_right _ _

theorem Regular.renumber (hregular : history.Regular) : history.renumber.Regular :=
  hregular.of_sameWindow ⟨rfl, hregular.entries_eq.symm, Nat.le_refl _⟩

theorem Regular.inRange (hregular : history.Regular) : history.InRange where
  dropped hfull := by
    have hlimit := hregular.limit_pos
    omega
  leftOut := hregular.unsaved_le

/-! ### Operations -/

variable {World : Type} {platform : Platform World}

theorem sameWindow_save (world : World) (history : History) :
    SameWindow history (history.save platform world).2.1 := by
  unfold save
  split
  · exact .refl history
  · split
    · exact sameWindow_saved history
    · exact .refl history

theorem sameWindow_append (world : World) (history : History) :
    SameWindow history (history.append platform world).2.1 := by
  unfold append
  split
  · exact sameWindow_save world history
  · split
    · split
      · exact sameWindow_appended history
      · exact .refl history
    · exact .refl history

theorem sameWindow_finish (world : World) (history : History) :
    SameWindow history (history.finish platform world).2.1 := by
  unfold finish
  split
  · exact sameWindow_save world history
  · exact .refl history

/-- Whether the new line reaches the file makes no difference to the window. -/
theorem sameWindow_push (world : World) (history : History) {line : Text} (hline : line ≠ []) :
    SameWindow (history.record line) (history.push platform world line).2.1 := by
  rw [push, List.isEmpty_eq_false_iff.mpr hline, if_neg Bool.false_ne_true]
  split
  · exact .refl _
  · exact sameWindow_append world (history.record line)

/-- A load numbers the records of the file anew, or leaves the window alone. -/
theorem load_cases (platform : Platform World) (world : World) (history : History) :
    (∃ content, (history.load platform world).1 = history.loaded (Record.parse content)) ∨
      SameWindow history (history.load platform world).1 := by
  unfold load
  split
  · exact .inr (.refl history)
  · split
    · next content _ => exact .inl ⟨content, rfl⟩
    · split
      · exact .inr (.refl history)
      · exact .inr ⟨rfl, rfl, Nat.le_refl _⟩

theorem Regular.run (hregular : history.Regular) (world : World) (operation : Operation) :
    (operation.run platform world history).2.1.Regular := by
  cases operation with
  | load =>
      show (history.load platform world).1.Regular
      rcases load_cases platform world history with ⟨content, hloaded⟩ | hsame
      · rw [hloaded]
        exact hregular.loaded fun record hrecord =>
          (Record.recordable_of_mem_parse hrecord).filled
      · exact hregular.of_sameWindow hsame
  | push line =>
      by_cases hline : line = []
      · subst hline
        exact hregular
      · exact (hregular.record hline).of_sameWindow (sameWindow_push world history hline)
  | save => exact hregular.of_sameWindow (sameWindow_save world history)
  | finish => exact hregular.of_sameWindow (sameWindow_finish world history)
  | renumber => exact hregular.renumber

theorem limit_run (world : World) (history : History) (operation : Operation) :
    (operation.run platform world history).2.1.limit = history.limit := by
  cases operation with
  | load =>
      show (history.load platform world).1.limit = history.limit
      rcases load_cases platform world history with ⟨content, hloaded⟩ | hsame
      · rw [hloaded]
        rfl
      · exact hsame.limit_eq
  | push line =>
      by_cases hline : line = []
      · subst hline
        rfl
      · exact (sameWindow_push world history hline).limit_eq
  | save => exact (sameWindow_save world history).limit_eq
  | finish => exact (sameWindow_finish world history).limit_eq
  | renumber => rfl

/-! ### A whole run -/

theorem regular_foldl_take (platform : Platform World) {use : Use World}
    (hregular : use.history.Regular)
    (turns : List (Turn World)) :
    (use.takeAll platform turns).history.Regular ∧
      (use.takeAll platform turns).history.limit = use.history.limit := by
  induction turns generalizing use with
  | nil => exact ⟨hregular, rfl⟩
  | cons turn rest ih =>
      have hturn : (use.take platform turn).history.Regular := hregular.run _ turn.operation
      have hlimit : (use.take platform turn).history.limit = use.history.limit :=
        limit_run _ use.history turn.operation
      obtain ⟨hrest, hrestLimit⟩ := ih hturn
      exact ⟨hrest, hrestLimit.trans hlimit⟩

/-- However a history is used, and whatever fails on the way, it is regular, no difference that it
takes is out of range, and a push leaves the newest of its lines with the new one behind them. -/
theorem regular_takeAll (platform : Platform World) (path? : Option Path) (limit : Nat)
    (sync : Sync) (world : World) (turns : List (Turn World)) :
    let start : Use World := { world, history := new path? limit sync }
    let history := (start.takeAll platform turns).history
    history.limit = max limit 1 ∧ history.Regular ∧ history.InRange ∧
      ∀ line, line ≠ [] →
        (history.record line).InRange ∧
          ∀ later, (history.push platform later line).2.1.entries =
            number (newest (max limit 1) (history.lines ++ [line])) := by
  intro start history
  have hstart : start.history.Regular := regular_new path? limit sync
  obtain ⟨hregular, hlimit⟩ := regular_foldl_take platform hstart turns
  have hbound : history.limit = max limit 1 := hlimit
  refine ⟨hbound, hregular, hregular.inRange, fun line hline => ⟨?_, fun later => ?_⟩⟩
  · exact (hregular.record hline).inRange
  · rw [(sameWindow_push later history hline).entries_eq, ← hbound]
    exact hregular.entries_record line

/-- A window of one line: the first push is refused, the second one makes room and brings its line
to the file. -/
theorem regular_takeAll_single :
    let world : Vault := { content := [], readable := false, writable := false }
    let turns := [Vault.turn false false .load, Vault.turn false false (.push "a")]
    let start : Use Vault := { world, history := new (some "h".toList) 0 .eachLine }
    let history := (start.takeAll Vault.platform turns).history
    history.entries = number ["a".toList] ∧ "b".toList ≠ [] ∧ (history.record "b").InRange ∧
      (history.push Vault.platform world "b").2.1.entries = number ["b".toList] := by
  intro world turns start history
  obtain ⟨-, -, -, hpush⟩ :=
    regular_takeAll Vault.platform (some "h".toList) 0 .eachLine world turns
  have hne : "b".toList ≠ [] := by decide
  exact ⟨by decide +kernel, hne, (hpush "b" hne).1, (hpush "b" hne).2 world⟩

end CommandShell.History
