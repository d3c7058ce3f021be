import CommandShell.Proofs.History.Operation
import CommandShell.Proofs.History.Pushing

/-!
# A file that is only extended

A history that could not read its file never replaces it, whatever is asked of it later and whether
or not the file can be read by then. Behind the old content the file gets the lines that wait in the
window, each with the first write that follows it in time.
-/

namespace CommandShell.History

/-- What is asked of a history, and what goes on around its file beforehand. -/
structure Turn (World : Type) where
  meanwhile : World → World
  operation : Operation

/-- Nobody else changes the file. -/
def Turn.Quiet {World : Type} (holds : World → Option Bytes → Prop) (turn : Turn World) : Prop :=
  ∀ world content?, holds world content? → holds (turn.meanwhile world) content?

section Uses

/-- A history in use, with what has happened to its lines. -/
structure Use (World : Type) where
  world : World
  history : History
  happenings : List Happening := []

variable {World : Type}

namespace Use

/-- The use of a history behind an operation that came to this result. -/
def behind (use : Use World) (operation : Operation)
    (result : World × History × Except Fault Unit) : Use World :=
  { world := result.1
    history := result.2.1
    happenings := use.happenings ++ operation.happenings use.history.sync result.2.2.isOk }

variable (platform : Platform World)

def opened (path : Path) (limit : Nat) (sync : Sync) (world : World) : Use World :=
  { world, history := ((new (some path) limit sync).load platform world).1 }

def take (use : Use World) (turn : Turn World) : Use World :=
  let world := turn.meanwhile use.world
  use.behind turn.operation (turn.operation.run platform world use.history)

def takeAll (use : Use World) (turns : List (Turn World)) : Use World :=
  turns.foldl (take platform) use

/-- What the file has behind its first content. -/
def added (use : Use World) : Bytes :=
  Update.bytes { replaces := false, lines := writtenLines use.history.limit use.happenings }

end Use

variable {platform : Platform World} {path : Path} {limit : Nat} {sync : Sync}
  {holds : World → Option Bytes → Prop} {content : Bytes} {use : Use World}

/-- What holds between two turns: the newest entries, as many as are counted as unsaved, are those
of the waiting lines that the window has kept. -/
structure Extending (holds : World → Option Bytes → Prop) (path : Path) (limit : Nat)
    (content : Bytes) (use : Use World) : Prop where
  holds : holds use.world (some (content ++ use.added))
  path_eq : use.history.path? = some path
  limit_eq : use.history.limit = limit
  onlyExtends : use.history.onlyExtends = true
  unsaved_le : use.history.unsaved ≤ use.history.entries.length
  unsaved : newest use.history.unsaved use.history.lines = newest limit (waiting use.happenings)

namespace Extending

theorem record (hlimit : 1 ≤ limit) (hextending : Extending holds path limit content use)
    (line : Text) :
    Extending holds path limit content
      { use with
        history := use.history.record line
        happenings := use.happenings ++ [.taken line] } := by
  obtain ⟨hholds, hpath, hbound, hextends, hle, hunsaved⟩ := hextending
  have hlines : (use.history.record line).lines = newest limit (use.history.lines ++ [line]) :=
    hbound ▸ lines_record (hbound.symm ▸ hlimit) line
  have hcount : (use.history.record line).unsaved =
      min (use.history.unsaved + 1) (use.history.record line).entries.length := rfl
  have hlength : (use.history.record line).entries.length =
      min limit (use.history.entries.length + 1) := by
    rw [← length_lines, hlines, length_newest, List.length_append, length_lines]
    rfl
  have hmore : newest (use.history.unsaved + 1) (use.history.lines ++ [line]) =
      newest use.history.unsaved use.history.lines ++ [line] := by
    rw [newest_concat (Nat.le_add_left 1 _), Nat.add_sub_add_right]
    rfl
  refine ⟨?_, hpath, hbound, hextends, hcount ▸ Nat.min_le_right _ _, ?_⟩
  · rw [Use.added, writtenLines_concat_of_ne (by simp)]
    exact hholds
  · have hmin : min (use.history.record line).unsaved limit =
        min limit (use.history.unsaved + 1) := by
      rw [hcount, hlength]
      omega
    calc newest (use.history.record line).unsaved (use.history.record line).lines
        = newest limit (newest (use.history.unsaved + 1) (use.history.lines ++ [line])) := by
          rw [hlines, newest_newest_eq_min, newest_newest_eq_min, hmin]
      _ = newest limit (newest limit (waiting use.happenings) ++ [line]) := by
          rw [hmore, hunsaved]
      _ = newest limit (waiting (use.happenings ++ [.taken line])) := by
          rw [newest_newest_append, waiting_concat_taken]

theorem saveUpdate_eq (hextending : Extending holds path limit content use) :
    use.history.saveUpdate =
      { replaces := false, lines := newest limit (waiting use.happenings) } := by
  rw [saveUpdate, hextending.onlyExtends, if_pos rfl, ← length_lines, ← newest, hextending.unsaved]

theorem saved (hextending : Extending holds path limit content use) {after : World}
    (hafter : holds after
      (some (use.history.saveUpdate.onto (some (content ++ use.added))))) :
    Extending holds path limit content
      { world := after
        history := use.history.saved
        happenings := use.happenings ++ [.written] } := by
  have hbound : use.history.saved.limit = limit := hextending.limit_eq
  refine ⟨?_, hextending.path_eq, hbound, hextending.onlyExtends, Nat.zero_le _, ?_⟩
  · have hadded : use.added = Update.bytes
        { replaces := false, lines := writtenLines limit use.happenings } := by
      rw [Use.added, hextending.limit_eq]
    rw [hextending.saveUpdate_eq, Update.onto, if_neg Bool.false_ne_true, Option.getD_some, hadded,
      List.append_assoc, ← Update.bytes_append, ← writtenLines_concat_written] at hafter
    rwa [Use.added, hbound]
  · rw [waiting_concat_written]
    simp [newest, History.saved]

/-- A change of the history that touches neither its lines nor the counts of them. -/
theorem of_lines_eq (hextending : Extending holds path limit content use) (next : History)
    (hpath : next.path? = use.history.path?) (hlimit : next.limit = use.history.limit)
    (hextends : next.onlyExtends = true) (hlines : next.lines = use.history.lines)
    (hunsaved : next.unsaved = use.history.unsaved) :
    Extending holds path limit content { use with history := next } where
  holds := by
    have hadded : ({ use with history := next } : Use World).added = use.added := by
      rw [Use.added, Use.added, hlimit]
    exact hadded ▸ hextending.holds
  path_eq := hpath.trans hextending.path_eq
  limit_eq := hlimit.trans hextending.limit_eq
  onlyExtends := hextends
  unsaved_le := by
    change next.unsaved ≤ next.entries.length
    rw [← length_lines, hlines, length_lines, hunsaved]
    exact hextending.unsaved_le
  unsaved := by
    change newest next.unsaved next.lines = _
    rw [hunsaved, hlines]
    exact hextending.unsaved

theorem loaded (hextending : Extending holds path limit content use) (records : List Text) :
    Extending holds path limit content
      { use with
        history := use.history.loaded records
        happenings := use.happenings ++ [.replaced] } where
  holds := by
    rw [Use.added, writtenLines_concat_of_ne (by simp)]
    exact hextending.holds
  path_eq := hextending.path_eq
  limit_eq := hextending.limit_eq
  onlyExtends := hextending.onlyExtends
  unsaved_le := Nat.zero_le _
  unsaved := by
    rw [waiting_concat_replaced]
    simp [newest, History.loaded]

theorem moved (hextending : Extending holds path limit content use) {later : World}
    (hholds : holds later (some (content ++ use.added))) :
    Extending holds path limit content { use with world := later } :=
  { hextending with holds := hholds }

/-! ### One operation -/

theorem save (hmay : platform.MayWrite path holds)
    (hextending : Extending holds path limit content use) :
    Extending holds path limit content
      (use.behind .save (use.history.save platform use.world)) := by
  obtain ⟨after, ⟨hmade, hafter⟩ | ⟨fault, hrefused, hafter⟩⟩ :=
    save_of_mayWrite hmay hextending.holds hextending.path_eq
  · rw [hmade]
    exact hextending.saved hafter
  · rw [hrefused, Use.behind]
    simpa [Operation.happenings, Except.isOk, Except.toBool] using hextending.moved hafter

theorem load (hmay : platform.MayWrite path holds)
    (hextending : Extending holds path limit content use) :
    Extending holds path limit content
      (use.behind .load (Operation.load.run platform use.world use.history)) := by
  have hpresent := hmay.present hextending.holds
  cases hread : platform.read use.world path with
  | ok read =>
      have hload : Operation.load.run platform use.world use.history =
          (use.world, use.history.loaded (Record.parse read), .ok ()) := by
        simp only [Operation.run, History.load, hextending.path_eq, hread, Except.map]
      rw [hload]
      exact hextending.loaded _
  | error fault =>
      have hother : fault ≠ .opening .missing := by
        rintro rfl
        exact hpresent hread
      have hload : Operation.load.run platform use.world use.history =
          (use.world, { use.history with onlyExtends := true },
            .error (.cannotRead path fault.cause)) := by
        simp only [Operation.run, History.load, hextending.path_eq, hread, if_neg hother,
          Except.map]
      rw [hload, Use.behind]
      simpa [Operation.happenings, Except.isOk, Except.toBool] using
        hextending.of_lines_eq { use.history with onlyExtends := true } rfl rfl rfl rfl rfl

theorem push (hlimit : 1 ≤ limit) (hmay : platform.MayWrite path holds)
    (hextending : Extending holds path limit content use) (line : Text) :
    Extending holds path limit content
      (use.behind (.push line) (use.history.push platform use.world line)) := by
  cases hempty : line.isEmpty with
  | true =>
      rw [History.push, if_pos hempty, Use.behind]
      simpa [Operation.happenings, hempty] using hextending
  | false =>
      have hrecord := hextending.record hlimit line
      rw [History.push, hempty, if_neg Bool.false_ne_true, Use.behind]
      cases hsync : use.history.sync with
      | onExit => simpa [Operation.happenings, hempty, hsync] using hrecord
      | eachLine =>
          have hsaves : (use.history.record line).append platform use.world =
              (use.history.record line).save platform use.world := by
            have honly : (use.history.record line).onlyExtends = true := hextending.onlyExtends
            rw [append, savesOnAppend, honly, Bool.or_true, if_pos rfl]
          have hsave := hrecord.save hmay
          rw [Use.behind] at hsave
          simpa [Operation.happenings, hempty, hsync, hsaves] using hsave

theorem finish (hmay : platform.MayWrite path holds)
    (hextending : Extending holds path limit content use) :
    Extending holds path limit content
      (use.behind .finish (use.history.finish platform use.world)) := by
  have hsave := hextending.save hmay
  rw [Use.behind] at hsave ⊢
  unfold History.finish
  cases hsync : use.history.sync with
  | onExit => simpa [Operation.happenings, hsync] using hsave
  | eachLine => simpa [Operation.happenings, hsync] using hextending

theorem run (hlimit : 1 ≤ limit) (hmay : platform.MayWrite path holds)
    (hextending : Extending holds path limit content use) (operation : Operation) :
    Extending holds path limit content
      (use.behind operation (operation.run platform use.world use.history)) := by
  cases operation with
  | load => exact hextending.load hmay
  | push line => exact hextending.push hlimit hmay line
  | save => exact hextending.save hmay
  | finish => exact hextending.finish hmay
  | renumber =>
      have hlines : use.history.renumber.lines = use.history.lines := lines_number _
      rw [Use.behind]
      simpa [Operation.happenings, Operation.run] using
        hextending.of_lines_eq use.history.renumber rfl rfl hextending.onlyExtends hlines rfl

/-! ### A whole run -/

theorem take (hlimit : 1 ≤ limit) (hmay : platform.MayWrite path holds)
    (hextending : Extending holds path limit content use) {turn : Turn World}
    (hquiet : turn.Quiet holds) : Extending holds path limit content (use.take platform turn) :=
  (hextending.moved (hquiet _ _ hextending.holds)).run hlimit hmay turn.operation

theorem takeAll (hlimit : 1 ≤ limit) (hmay : platform.MayWrite path holds)
    (hextending : Extending holds path limit content use) {turns : List (Turn World)}
    (hquiet : ∀ turn ∈ turns, turn.Quiet holds) :
    Extending holds path limit content (use.takeAll platform turns) := by
  induction turns generalizing use with
  | nil => exact hextending
  | cons turn rest ih =>
      obtain ⟨hturn, hrest⟩ := List.forall_mem_cons.mp hquiet
      exact ih (hextending.take hlimit hmay hturn) hrest

end Extending

theorem extending_opened {world : World} (hholds : holds world (some content)) {fault : Fault}
    (hfailed : ((new (some path) limit sync).load platform world).2 = .error fault) :
    Extending holds path (max limit 1) content (Use.opened platform path limit sync world) := by
  have hhistory : ((new (some path) limit sync).load platform world).1 =
      { new (some path) limit sync with onlyExtends := true } := by
    simp only [History.load, new] at hfailed ⊢
    split at hfailed
    · cases hfailed
    · split at hfailed
      · cases hfailed
      · next hread hother => simp only [if_neg hother]
  have hopened : Use.opened platform path limit sync world =
      { world, history := { new (some path) limit sync with onlyExtends := true } } := by
    rw [Use.opened, hhistory]
  have hadded : (Use.opened platform path limit sync world).added = [] := by
    rw [hopened]
    rfl
  rw [← List.append_nil content, ← hadded] at hholds
  rw [hopened] at hholds ⊢
  have hnone : newest (max limit 1) [] = [] := newest_of_length_le (Nat.zero_le _)
  exact ⟨hholds, rfl, rfl, rfl, Nat.zero_le _, hnone.symm⟩

theorem filterMap_happenings (operation : Operation) (sync : Sync) (made : Bool) :
    (operation.happenings sync made).filterMap Happening.line? = operation.line?.toList := by
  cases operation with
  | push line =>
      rw [Operation.happenings, Operation.line?]
      split
      · rfl
      · split <;> rfl
  | load | save | finish =>
      rw [Operation.happenings]
      split <;> rfl
  | renumber => rfl

theorem line?_takeAll (platform : Platform World) (use : Use World) (turns : List (Turn World)) :
    (use.takeAll platform turns).happenings.filterMap Happening.line? =
      use.happenings.filterMap Happening.line? ++ turns.filterMap (·.operation.line?) := by
  induction turns generalizing use with
  | nil => exact (List.append_nil _).symm
  | cons turn rest ih =>
      have hturn : (use.take platform turn).happenings.filterMap Happening.line? =
          use.happenings.filterMap Happening.line? ++ turn.operation.line?.toList := by
        rw [Use.take, Use.behind, List.filterMap_append, filterMap_happenings]
      have hcons : (turn :: rest).filterMap (·.operation.line?) =
          turn.operation.line?.toList ++ rest.filterMap (·.operation.line?) := by
        cases hline : turn.operation.line? <;> simp [hline]
      rw [Use.takeAll, List.foldl_cons, ← Use.takeAll, ih, hturn, hcons, List.append_assoc]

theorem happenings_take (platform : Platform World) (use : Use World) (turn : Turn World) :
    use.happenings <+: (use.take platform turn).happenings :=
  List.prefix_append _ _

/-- Behind a failed load a file is only extended, by lines that were pushed, in their order; a line
is left out if the window has lost it before the file is next written, or the entries were read
anew, or the file is not written any more. -/
theorem file_only_extended (hmay : platform.MayWrite path holds) {world : World}
    (hholds : holds world (some content)) {fault : Fault}
    (hfailed : ((new (some path) limit sync).load platform world).2 = .error fault)
    {turns : List (Turn World)} (hquiet : ∀ turn ∈ turns, turn.Quiet holds) :
    let use := fun front => (Use.opened platform path limit sync world).takeAll platform front
    let lines := fun front => writtenLines (max limit 1) (use front).happenings
    let file := fun front => content ++ Update.bytes { replaces := false, lines := lines front }
    (∀ front, front <+: turns → holds (use front).world (some (file front))) ∧
      (∀ front turn, front ++ [turn] <+: turns → file front <+: file (front ++ [turn])) ∧
      (lines turns).Sublist (turns.filterMap (·.operation.line?)) := by
  intro use lines file
  refine ⟨fun front hfront => ?_, fun front turn _ => ?_, ?_⟩
  · have hextending := (extending_opened hholds hfailed).takeAll (Nat.le_max_right limit 1) hmay
      fun turn hturn => hquiet turn (hfront.subset hturn)
    have hadded := hextending.holds
    rwa [Use.added, hextending.limit_eq] at hadded
  · have hnext : use (front ++ [turn]) = (use front).take platform turn := List.foldl_append
    obtain ⟨more, hmore⟩ := happenings_take platform (use front) turn
    obtain ⟨added, hadded⟩ := prefix_writtenLines (max limit 1) (use front).happenings more
    have hlines : lines (front ++ [turn]) = lines front ++ added := by
      rw [hadded, hmore, ← hnext]
    refine ⟨Update.bytes { replaces := false, lines := added }, ?_⟩
    rw [List.append_assoc, ← Update.bytes_append, ← hlines]
  · have hpushed : (use turns).happenings.filterMap Happening.line? =
        turns.filterMap (·.operation.line?) :=
      line?_takeAll platform (Use.opened platform path limit sync world) turns
    exact hpushed ▸ sublist_writtenLines (max limit 1) (use turns).happenings

end Uses

/-- A world of one file that is locked and unlocked. -/
structure Vault where
  content : Bytes
  readable : Bool
  writable : Bool

namespace Vault

def platform : Platform Vault where
  isRegular _ _ := true
  canonical? _ _ := none
  enter? _ _ := none
  workingDirectory? _ := none
  openFile vault _ :=
    if vault.readable then .ok fun later => .ok later.content else .error .denied
  update vault _ change :=
    if vault.writable then ({ vault with content := change.onto (some vault.content) }, .ok ())
    else (vault, .error (.opening .denied))
  launch _ _ := .error .missing

theorem mayWrite (path : Path) : platform.MayWrite path fun vault => (some vault.content = ·) where
  present {vault _} _ := by
    cases hreadable : vault.readable <;> simp [Platform.read, platform, hreadable, Except.mapError]
  update {vault content?} change hholds := by
    by_cases hwritable : vault.writable = true
    · exact ⟨{ vault with content := change.onto (some vault.content) },
        .inl ⟨if_pos hwritable, congrArg (fun content? => some (change.onto content?)) hholds⟩⟩
    · exact ⟨vault, .inr ⟨.denied, if_neg hwritable, hholds⟩⟩

/-- An operation behind a change of the locks. -/
def turn (readable writable : Bool) (operation : Operation) : Turn Vault :=
  { meanwhile := fun vault => { vault with readable, writable }, operation }

theorem quiet_turn (readable writable : Bool) (operation : Operation) :
    (turn readable writable operation).Quiet fun vault => (some vault.content = ·) :=
  fun _ _ hholds => hholds

end Vault

/-- The first line waits for the second; the third is lost to a load, and the fourth to the two
behind it. -/
theorem file_only_extended_locked :
    let platform := Vault.platform
    let world : Vault := { content := Utf8.encode ['x'], readable := false, writable := false }
    let turns := [Vault.turn false false (.push "a"), Vault.turn false true (.push "b"),
      Vault.turn false false (.push "c"), Vault.turn true false .load,
      Vault.turn false false (.push "d"), Vault.turn false false (.push "e"),
      Vault.turn true true (.push "f"), Vault.turn true true .finish]
    let use := fun front => (Use.opened platform "h" 2 .eachLine world).takeAll platform front
    let lines := fun front => writtenLines (max 2 1) (use front).happenings
    let file := fun front =>
      Utf8.encode ['x'] ++ Update.bytes { replaces := false, lines := lines front }
    (((new (some "h".toList) 2 .eachLine).load platform world).2 =
        .error (.cannotRead "h" .denied) ∧
      lines turns = ["a".toList, "b".toList, "e".toList, "f".toList]) ∧
    (∀ front, front <+: turns → some (use front).world.content = some (file front)) ∧
      (∀ front turn, front ++ [turn] <+: turns → file front <+: file (front ++ [turn])) ∧
      (lines turns).Sublist (turns.filterMap (·.operation.line?)) := by
  intro platform world turns use lines file
  have hfailed : ((new (some "h".toList) 2 .eachLine).load platform world).2 =
      .error (.cannotRead "h" .denied) := rfl
  have hlines : lines turns = ["a".toList, "b".toList, "e".toList, "f".toList] := by
    decide +kernel
  have hquiet : ∀ turn ∈ turns, turn.Quiet fun vault => (some vault.content = ·) := by
    intro turn hturn
    simp only [turns, List.mem_cons, List.not_mem_nil, or_false] at hturn
    rcases hturn with rfl | rfl | rfl | rfl | rfl | rfl | rfl | rfl <;> exact Vault.quiet_turn _ _ _
  exact ⟨⟨hfailed, hlines⟩, file_only_extended (Vault.mayWrite "h") rfl hfailed hquiet⟩

end CommandShell.History
