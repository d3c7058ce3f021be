import CommandShell.Proofs.History.Pushing
import CommandShell.Proofs.Host.RootFile

/-!
# Several sessions on one file

A session counts the records of its file when it reads them and goes on from there; what others
write it does not see. Where there is room for the lines of all, such a count is never too high: no
session takes the file for full, and every line goes behind what is there.
-/

namespace CommandShell

variable {World : Type}

/-- The records that are found in a file; a missing one has none. -/
def Platform.records? (platform : Platform World) (world : World) (path : Path) :
    Option (List Text) :=
  match platform.read world path with
  | .ok content => some (History.Record.parse content)
  | .error (.opening .missing) => some []
  | .error _ => none

namespace History

/-- Histories on one file, each of a session of its own. -/
structure Shared (Member World : Type) where
  world : World
  histories : Member → History

namespace Shared

variable {Member : Type} (platform : Platform World)

/-- All have read the file, and none has written to it. -/
def start (path : Path) (limit : Nat) (world : World) : Shared Member World :=
  { world, histories := fun _ => ((new (some path) limit .eachLine).load platform world).1 }

variable [DecidableEq Member]

def push (shared : Shared Member World) (member : Member) (line : Text) :
    Except Fault (Shared Member World) :=
  match (shared.histories member).push platform shared.world line with
  | (world, history, .ok ()) =>
    .ok { world, histories := Function.update shared.histories member history }
  | (_, _, .error fault) => .error fault

/-- Lines of all members, one after the other. -/
def pushAll (shared : Shared Member World) : List (Member × Text) →
    Except Fault (Shared Member World)
  | [] => .ok shared
  | (member, line) :: rest =>
    match shared.push platform member line with
    | .ok next => next.pushAll rest
    | .error fault => .error fault

end Shared

variable {platform : Platform World} {path : Path} {limit count : Nat}
  {holds : World → Option Bytes → Prop} {content? : Option Bytes} {history : History}

theorem records?_of_reads (hreads : platform.Reads path holds) {world : World}
    (hholds : holds world content?) :
    platform.records? world path = some (Record.parse (content?.getD [])) := by
  cases content? with
  | none => rw [Platform.records?, hreads.missing hholds, Option.getD_none, Record.parse_nil]
  | some content => rw [Platform.records?, hreads.read hholds, Option.getD_some]

/-- A history that writes line by line and takes its file to hold no more than so many records. -/
structure Appends (path : Path) (limit count : Nat) (history : History) : Prop where
  path_eq : history.path? = some path
  sync_eq : history.sync = .eachLine
  replaces : history.onlyExtends = false
  limit_le : limit ≤ history.limit
  persisted_le : history.persisted ≤ count

theorem Appends.mono (happends : Appends path limit count history) {higher : Nat}
    (hhigher : count ≤ higher) : Appends path limit higher history :=
  { happends with persisted_le := happends.persisted_le.trans hhigher }

theorem Appends.push (hmay : platform.MayStore path holds)
    (happends : Appends path limit count history) {world : World} (hholds : holds world content?)
    (hroom : count < limit) {line : Text} (hfilled : line ≠ []) {after : World} {next : History}
    (hpush : history.push platform world line = (after, next, .ok ())) :
    Appends path limit (count + 1) next ∧
      holds after
        (some (content?.getD [] ++ Update.bytes { replaces := false, lines := [line] })) := by
  have hpushed := pushed_of_push hmay hholds happends.path_eq happends.sync_eq happends.replaces
    hfilled hpush
  cases hpushed with
  | rewritten hfull hafter =>
      have hlow := happends.persisted_le
      have hhigh := happends.limit_le
      omega
  | appended hroom hafter =>
      exact ⟨⟨happends.path_eq, happends.sync_eq, happends.replaces, happends.limit_le,
        Nat.succ_le_succ happends.persisted_le⟩, hafter⟩

namespace Shared

variable {Member : Type} {shared last : Shared Member World} {turns : List (Member × Text)}

theorem appends_start (hreads : platform.Reads path holds) {world : World}
    (hholds : holds world content?) (limit : Nat) (member : Member) :
    Appends path limit (Record.parse (content?.getD [])).length
      ((start platform path limit world : Shared Member World).histories member) := by
  rw [start, load_of_reads hreads hholds limit .eachLine]
  exact ⟨rfl, rfl, rfl, Nat.le_max_left limit 1, Nat.le_refl _⟩

variable [DecidableEq Member]

theorem push_eq_ok {member : Member} {line : Text} {next : Shared Member World}
    (hpush : shared.push platform member line = .ok next) :
    ∃ history, (shared.histories member).push platform shared.world line =
        (next.world, history, .ok ()) ∧
      next.histories = Function.update shared.histories member history := by
  unfold push at hpush
  split at hpush
  · next world history hmade =>
    cases hpush
    exact ⟨history, hmade, rfl⟩
  · cases hpush

theorem pushAll_cons_eq_ok {member : Member} {line : Text}
    (hmade : shared.pushAll platform ((member, line) :: turns) = .ok last) :
    ∃ next, shared.push platform member line = .ok next ∧
      next.pushAll platform turns = .ok last := by
  rw [pushAll] at hmade
  split at hmade
  · next next hpush => exact ⟨next, hpush, hmade⟩
  · cases hmade

theorem appends_push (hmay : platform.MayStore path holds) (hholds : holds shared.world content?)
    (happends : ∀ member, Appends path limit count (shared.histories member))
    (hroom : count < limit) {member : Member} {line : Text} (hfilled : line ≠ [])
    {next : Shared Member World} (hpush : shared.push platform member line = .ok next) :
    (∀ other, Appends path limit (count + 1) (next.histories other)) ∧
      holds next.world
        (some (content?.getD [] ++ Update.bytes { replaces := false, lines := [line] })) := by
  obtain ⟨history, hmade, hhistories⟩ := push_eq_ok hpush
  obtain ⟨hnext, hafter⟩ := (happends member).push hmay hholds hroom hfilled hmade
  refine ⟨fun other => ?_, hafter⟩
  rw [hhistories]
  by_cases hother : other = member
  · subst hother
    rwa [Function.update_self]
  · rw [Function.update_of_ne hother]
    exact (happends other).mono (Nat.le_succ count)

theorem appends_pushAll (hmay : platform.MayStore path holds) (hholds : holds shared.world content?)
    (happends : ∀ member, Appends path limit count (shared.histories member))
    (hroom : count + turns.length ≤ limit) (hfilled : ∀ turn ∈ turns, turn.2 ≠ [])
    (hmade : shared.pushAll platform turns = .ok last) :
    (∀ member, Appends path limit (count + turns.length) (last.histories member)) ∧
      ∃ content?', holds last.world content?' ∧ content?'.getD [] =
        content?.getD [] ++ Update.bytes { replaces := false, lines := turns.map (·.2) } := by
  induction turns generalizing shared count content? with
  | nil =>
      cases hmade
      exact ⟨happends, content?, hholds, (List.append_nil _).symm⟩
  | cons turn rest ih =>
      obtain ⟨member, line⟩ := turn
      obtain ⟨hline, hrest⟩ := List.forall_mem_cons.mp hfilled
      obtain ⟨next, hpush, hlater⟩ := pushAll_cons_eq_ok hmade
      rw [List.length_cons] at hroom
      obtain ⟨hnext, hafter⟩ := appends_push hmay hholds happends (by omega) hline hpush
      obtain ⟨hlast, content?', hholds', hcontent⟩ :=
        ih hafter hnext (by omega) hrest hlater
      refine ⟨fun other => (hlast other).mono (by rw [List.length_cons]; omega), content?', hholds',
        ?_⟩
      rw [hcontent, Option.getD_some, List.append_assoc, ← Update.bytes_append, List.map_cons,
        List.singleton_append]

end Shared

/-- As long as there is room for the lines of all, each session keeps the lines of the others: the
file has all lines behind its old records, in the order in which they were pushed. -/
theorem records_after_shared_pushes {Member : Type} [DecidableEq Member]
    (hmay : platform.MayStore path holds) {world : World} (hholds : holds world content?)
    (hend : Record.Terminated (content?.getD [])) {turns : List (Member × Text)}
    (hroom : (Record.parse (content?.getD [])).length + turns.length ≤ limit)
    (hlines : ∀ turn ∈ turns, Recordable turn.2) {last : Shared Member World}
    (hmade : (Shared.start platform path limit world).pushAll platform turns = .ok last) :
    platform.records? world path = some (Record.parse (content?.getD [])) ∧
      platform.records? last.world path =
        some (Record.parse (content?.getD []) ++ turns.map (·.2)) ∧
      ∀ member, (last.histories member).finish platform last.world =
        (last.world, last.histories member, .ok ()) := by
  have hreads := hmay.toReads
  obtain ⟨happends, content?', hafter, hcontent⟩ :=
    Shared.appends_pushAll hmay hholds (Shared.appends_start hreads hholds limit) hroom
      (fun turn hturn => (hlines turn hturn).filled) hmade
  refine ⟨records?_of_reads hreads hholds, ?_, fun member => ?_⟩
  · have hrecords : ∀ line ∈ turns.map (·.2), Recordable line := List.forall_mem_map.mpr hlines
    rw [records?_of_reads hreads hafter, hcontent, Record.parse_append_of_terminated hend,
      Record.parse_bytes hrecords]
  · rw [finish, (happends member).sync_eq]

/-- Two sessions push three lines in turn, and with the last one the file is full. -/
theorem records_after_shared_pushes_full :
    let platform := Host.platform 2
    let world := Host.bare.put [['h']] (.file (Utf8.encode "x\n".toList) false)
    let turns := [(true, "a".toList), (false, "b".toList), (true, "c".toList)]
    (Record.Terminated (Utf8.encode "x\n".toList) ∧
      (Record.parse (Utf8.encode "x\n".toList)).length + turns.length ≤ 4 ∧
      ∀ turn ∈ turns, Recordable turn.2) ∧
    ∃ last, (Shared.start platform "/h" 4 world).pushAll platform turns = .ok last ∧
      platform.records? world "/h" = some (Record.parse (Utf8.encode "x\n".toList)) ∧
      platform.records? last.world "/h" =
        some (Record.parse (Utf8.encode "x\n".toList) ++ turns.map (·.2)) ∧
      ∀ member, (last.histories member).finish platform last.world =
        (last.world, last.histories member, .ok ()) := by
  intro platform world turns
  have hname : Host.FileSystem.IsName ['h'] := ⟨by decide, by decide, by decide, by decide⟩
  have hmay := (Host.stores_root hname 2).mayStore
  have hholds : Host.HoldsInRoot ['h'] world (some (Utf8.encode "x\n".toList)) := ⟨false, rfl⟩
  have hend : Record.Terminated (Utf8.encode "x\n".toList) := by decide +kernel
  have hroom : (Record.parse (Utf8.encode "x\n".toList)).length + turns.length ≤ 4 := by
    decide +kernel
  have hlines : ∀ turn ∈ turns, Recordable turn.2 := by
    simp only [recordable_iff, turns]
    decide
  have hmade : ((Shared.start platform "/h" 4 world).pushAll platform turns).isOk = true := by
    decide +kernel
  refine ⟨⟨hend, hroom, hlines⟩, ?_⟩
  cases hlast : (Shared.start platform "/h" 4 world).pushAll platform turns with
  | error fault =>
      rw [hlast] at hmade
      cases hmade
  | ok last =>
      exact ⟨last, rfl, records_after_shared_pushes hmay hholds hend hroom hlines hlast⟩

end History

end CommandShell
