import CommandShell.Text.Utf8

/-!
Reading lines from a file that may change meanwhile. Bytes are fetched in blocks, and only when
those at hand end no line, so that a line may begin in an old content and end in a new one.
-/

namespace CommandShell.Line

structure Cursor where
  /-- How many bytes of the file were fetched. -/
  offset : Nat
  /-- Those of them that no line has taken yet. -/
  held : Bytes

namespace Cursor

def start : Cursor := { offset := 0, held := [] }

def blockSize : Nat := 8192

/-- How many bytes the blocks have in which a line ends at last. -/
def needed (ahead : Bytes) : Nat :=
  ((ahead.takeWhile (· != 10)).length / blockSize + 1) * blockSize

/-- Fetches blocks until a line ends, or the content does. Nothing is fetched beyond the limit. -/
def fetch (limit : Nat) (cursor : Cursor) (content : Bytes) : Cursor :=
  let ahead := content.drop cursor.offset
  let fetched := ahead.take (min (needed ahead) (limit - cursor.offset))
  { offset := cursor.offset + fetched.length, held := cursor.held ++ fetched }

/-- Makes a line ready, for which the file may have to be read. -/
def ready {Fault : Type} (limit : Nat) (cursor : Cursor) (file : Except Fault Bytes) :
    Except Fault Cursor :=
  if cursor.held.contains 10 then .ok cursor else file.map (cursor.fetch limit)

/-- The line at hand without its line feed; the end of the content ends a line as well. -/
def line? (cursor : Cursor) : Option (Bytes × Cursor) :=
  if cursor.held.isEmpty then none
  else
    some (cursor.held.takeWhile (· != 10),
      { cursor with held := (cursor.held.dropWhile (· != 10)).drop 1 })

/-- How many bytes lines may still take. -/
def remaining (limit : Nat) (cursor : Cursor) : Nat :=
  limit - cursor.offset + cursor.held.length

theorem remaining_fetch (limit : Nat) (cursor : Cursor) (content : Bytes) :
    (cursor.fetch limit content).remaining limit = cursor.remaining limit := by
  simp only [remaining, fetch, List.length_append, List.length_take]
  omega

theorem remaining_ready {Fault : Type} {limit : Nat} {cursor next : Cursor}
    {file : Except Fault Bytes} (made : cursor.ready limit file = .ok next) :
    next.remaining limit = cursor.remaining limit := by
  unfold ready at made
  split at made
  · rw [Except.ok.inj made]
  · cases file with
    | error => cases made
    | ok content =>
      rw [← Except.ok.inj made]
      exact remaining_fetch limit cursor content

theorem remaining_lt_of_line? {limit : Nat} {cursor rest : Cursor} {line : Bytes}
    (found : cursor.line? = some (line, rest)) :
    rest.remaining limit < cursor.remaining limit := by
  unfold line? at found
  split at found
  · cases found
  · next filled =>
    obtain ⟨-, rfl⟩ := Prod.mk.inj (Option.some.inj found)
    have positive : 0 < cursor.held.length :=
      List.length_pos_iff.mpr (by simpa using filled)
    have whole : (cursor.held.takeWhile (· != 10)).length +
        (cursor.held.dropWhile (· != 10)).length = cursor.held.length := by
      rw [← List.length_append, List.takeWhile_append_dropWhile]
    simp only [remaining, List.length_drop]
    omega

/-- The next line and what is left behind it. -/
def next? {Fault : Type} (limit : Nat) (cursor : Cursor) (file : Except Fault Bytes) :
    Except Fault (Option (Bytes × Cursor)) :=
  (cursor.ready limit file).map line?

theorem remaining_lt_of_next? {Fault : Type} {limit : Nat} {cursor rest : Cursor}
    {file : Except Fault Bytes} {line : Bytes}
    (found : cursor.next? limit file = .ok (some (line, rest))) :
    rest.remaining limit < cursor.remaining limit := by
  unfold next? at found
  cases made : cursor.ready limit file with
  | error fault => simp [made, Except.map] at found
  | ok ready =>
    rw [made] at found
    rw [← remaining_ready made]
    exact remaining_lt_of_line? (Except.ok.inj found)

end Cursor

end CommandShell.Line
