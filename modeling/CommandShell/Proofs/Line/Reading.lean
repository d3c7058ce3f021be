import CommandShell.Line
import CommandShell.Line.Cursor
import CommandShell.Proofs.Text.Words

/-!
# Reading a file line by line

A file is fetched in blocks, and a block may end in the middle of a line. As long as the content
stays what it is, what a cursor holds and what it has not fetched make up the rest of the content,
and the lines that it finds are those of that rest.
-/

namespace CommandShell.Line

theorem pieces_eq_takeWhile_cons (content : Bytes) :
    Text.pieces (· == 10) content =
      content.takeWhile (· != 10) ::
        match content.dropWhile (· != 10) with
        | [] => []
        | _ :: rest => Text.pieces (· == 10) rest := by
  induction content with
  | nil => rfl
  | cons byte rest ih =>
      by_cases hfeed : byte = 10
      · simp [Text.pieces, hfeed]
      · rw [Text.pieces, ih]
        simp [hfeed]

theorem span_of_feed {front : Bytes} (hfront : 10 ∉ front) (back : Bytes) :
    (front ++ 10 :: back).takeWhile (· != 10) = front ∧
      (front ++ 10 :: back).dropWhile (· != 10) = 10 :: back := by
  have hline : ∀ byte ∈ front, (byte != 10) = true :=
    fun byte hbyte => bne_iff_ne.mpr fun hten => hfront (hten ▸ hbyte)
  rw [List.takeWhile_append_of_pos hline, List.dropWhile_append_of_pos hline]
  simp

/-- The first line and those behind its line feed. -/
theorem ofBytes_of_ne_nil {content : Bytes} (hne : content ≠ []) :
    ofBytes content =
      content.takeWhile (· != 10) :: ofBytes ((content.dropWhile (· != 10)).drop 1) := by
  have hwhole := List.takeWhile_append_dropWhile (p := (· != 10)) (l := content)
  unfold ofBytes
  rw [pieces_eq_takeWhile_cons]
  cases hdrop : content.dropWhile (· != 10) with
  | nil =>
      rw [hdrop, List.append_nil] at hwhole
      simp [hwhole, hne, Text.pieces]
  | cons feed rest =>
      obtain ⟨first, others, hpieces⟩ :=
        List.exists_cons_of_ne_nil (Text.pieces_ne_nil (· == 10) rest)
      simp [hpieces]

namespace Cursor

/-- What no line has taken yet. -/
def unread (cursor : Cursor) (content : Bytes) : Bytes :=
  cursor.held ++ content.drop cursor.offset

theorem unread_start (content : Bytes) : start.unread content = content :=
  rfl

theorem unread_fetch (limit : Nat) (cursor : Cursor) (content : Bytes) :
    (cursor.fetch limit content).unread content = cursor.unread content := by
  simp only [unread, fetch, List.append_assoc, ← List.drop_drop]
  rw [List.prefix_iff_eq_append.mp (List.take_prefix _ _)]

theorem length_takeWhile_lt_needed (ahead : Bytes) :
    (ahead.takeWhile (· != 10)).length < needed ahead := by
  unfold needed blockSize
  omega

theorem feed_mem_take_needed {ahead : Bytes} (hfeed : 10 ∈ ahead) :
    10 ∈ ahead.take (needed ahead) := by
  obtain ⟨front, back, hahead, hfront⟩ := List.eq_append_cons_of_mem hfeed
  have hlong := length_takeWhile_lt_needed ahead
  rw [hahead, (span_of_feed hfront back).1, ← hahead] at hlong
  obtain ⟨more, hmore⟩ := Nat.exists_eq_add_of_lt hlong
  rw [hmore, hahead, Nat.add_assoc, List.take_length_add_append]
  exact List.mem_append_right _ List.mem_cons_self

/-- The blocks that are fetched reach to the end of a line, or to that of the content. -/
theorem fetch_reaches {limit : Nat} {content : Bytes} (hlimit : content.length ≤ limit)
    (cursor : Cursor) :
    10 ∈ (cursor.fetch limit content).held ∨
      content.drop (cursor.fetch limit content).offset = [] := by
  have hwhole : (content.drop cursor.offset).length ≤ limit - cursor.offset := by
    rw [List.length_drop]
    omega
  simp only [fetch, ← List.drop_drop]
  generalize content.drop cursor.offset = ahead at hwhole
  have hfetched : ahead.take (min (needed ahead) (limit - cursor.offset)) =
      ahead.take (needed ahead) := by
    rw [← List.take_take, List.take_of_length_le hwhole]
  rw [hfetched]
  -- Without a line feed ahead, the blocks that a line needs are all that is left.
  by_cases hfeed : 10 ∈ ahead
  · exact .inl (List.mem_append_right _ (feed_mem_take_needed hfeed))
  · have hline : ahead.takeWhile (· != 10) = ahead :=
      List.takeWhile_eq_self_iff.mpr fun byte hbyte =>
        bne_iff_ne.mpr fun hten => hfeed (hten ▸ hbyte)
    have hlong := length_takeWhile_lt_needed ahead
    rw [hline] at hlong
    right
    rw [List.take_of_length_le hlong.le, List.drop_length]

theorem exists_ready (Fault : Type) {limit : Nat} {content : Bytes}
    (hlimit : content.length ≤ limit) (cursor : Cursor) :
    ∃ next, cursor.ready limit (.ok content : Except Fault Bytes) = .ok next ∧
      next.unread content = cursor.unread content ∧
        (10 ∈ next.held ∨ content.drop next.offset = []) := by
  unfold ready
  split
  · next hheld => exact ⟨cursor, rfl, rfl, .inl (by simpa using hheld)⟩
  · exact ⟨_, rfl, unread_fetch limit cursor content, fetch_reaches hlimit cursor⟩

/-- Of a content that stays what it is, a cursor finds the next line, or that there is none. -/
theorem next?_of_content (Fault : Type) {limit : Nat} {content : Bytes}
    (hlimit : content.length ≤ limit) (cursor : Cursor) :
    (cursor.unread content = [] ∧
        cursor.next? limit (.ok content : Except Fault Bytes) = .ok none) ∨
      ∃ rest, cursor.unread content ≠ [] ∧
        cursor.next? limit (.ok content : Except Fault Bytes) =
          .ok (some ((cursor.unread content).takeWhile (· != 10), rest)) ∧
        rest.unread content = ((cursor.unread content).dropWhile (· != 10)).drop 1 := by
  obtain ⟨ready, hready, hunread, hreaches⟩ := exists_ready Fault hlimit cursor
  rw [next?, hready, ← hunread]
  simp only [Except.map, line?, unread]
  by_cases hheld : ready.held = []
  · have hnone : content.drop ready.offset = [] := hreaches.resolve_left (by simp [hheld])
    exact .inl (by simp [hheld, hnone])
  · have hspan : (ready.held ++ content.drop ready.offset).takeWhile (· != 10) =
          ready.held.takeWhile (· != 10) ∧
        ((ready.held ++ content.drop ready.offset).dropWhile (· != 10)).drop 1 =
          (ready.held.dropWhile (· != 10)).drop 1 ++ content.drop ready.offset := by
      rcases hreaches with hfeed | hnone
      · obtain ⟨front, back, hsplit, hfront⟩ := List.eq_append_cons_of_mem hfeed
        rw [hsplit, List.append_assoc, List.cons_append, (span_of_feed hfront _).1,
          (span_of_feed hfront _).2, (span_of_feed hfront _).1, (span_of_feed hfront _).2]
        exact ⟨rfl, rfl⟩
      · simp [hnone]
    refine .inr
      ⟨{ ready with held := (ready.held.dropWhile (· != 10)).drop 1 }, by simp [hheld], ?_⟩
    rw [if_neg (by simpa using hheld), hspan.1, hspan.2]
    exact ⟨rfl, rfl⟩

end Cursor

end CommandShell.Line
