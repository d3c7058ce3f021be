import CommandShell.Proofs.History.Records

/-!
# What stands behind the last line feed

Content that ends in a line feed is read record by record, whatever is written behind it. Any other
has a tail, and the first line written behind that becomes one record with it; so of all contents
these alone keep their records when lines are appended.
-/

namespace CommandShell.Update

theorem bytes_append (replaces : Bool) (front back : List Text) :
    bytes { replaces, lines := front ++ back } =
      bytes { replaces, lines := front } ++ bytes { replaces, lines := back } :=
  List.flatMap_append

theorem bytes_singleton (replaces : Bool) (line : Text) :
    bytes { replaces, lines := [line] } = Utf8.encode line ++ [10] :=
  List.flatMap_singleton _ line

end CommandShell.Update

namespace CommandShell.History

theorem recordable_iff {text : Text} :
    Recordable text ↔ text ≠ [] ∧ '\n' ∉ text ∧ text.getLast? ≠ some '\r' := by
  constructor
  · rintro ⟨hfilled, hfeed, hend⟩
    refine ⟨hfilled, hfeed, fun hreturn => ?_⟩
    obtain ⟨front, rfl⟩ := List.getLast?_eq_some_iff.mp hreturn
    have hlast := Text.trimEnd_eq_self_iff.mp hend (by simp)
    rw [List.getLast_append_singleton] at hlast
    exact hlast (by decide)
  · rintro ⟨hfilled, hfeed, hreturn⟩
    refine ⟨hfilled, hfeed, Text.trimEnd_eq_self_iff.mpr fun hne hend => ?_⟩
    have hmember := List.getLast_mem hne
    have hlast := List.getLast?_eq_some_getLast hne
    simp only [Text.isLineEnd, Bool.or_eq_true, beq_iff_eq] at hend
    rcases hend with hend | hend
    · exact hfeed (hend ▸ hmember)
    · exact hreturn (hend ▸ hlast)

namespace Record

/-- Nothing stands behind the last line feed. -/
def Terminated (content : Bytes) : Prop :=
  ∀ byte ∈ content.getLast?, byte = 10

instance (content : Bytes) : Decidable (Terminated content) :=
  inferInstanceAs (Decidable (∀ byte ∈ content.getLast?, byte = 10))

theorem terminated_nil : Terminated [] := by
  intro byte hbyte
  cases hbyte

theorem terminated_append_feed (front : Bytes) : Terminated (front ++ [10]) := by
  intro byte hbyte
  rw [List.getLast?_concat] at hbyte
  exact (Option.some.inj hbyte).symm

theorem exists_feed_of_terminated {content : Bytes} (hend : Terminated content)
    (hne : content ≠ []) : ∃ front, content = front ++ [10] := by
  have hlast := hend _ (List.getLast?_eq_some_getLast hne)
  exact ⟨content.dropLast, by rw [← hlast, List.dropLast_append_getLast hne]⟩

theorem terminated_append {front back : Bytes} (hfront : Terminated front)
    (hback : Terminated back) : Terminated (front ++ back) := by
  by_cases hne : back = []
  · rwa [hne, List.append_nil]
  · obtain ⟨others, rfl⟩ := exists_feed_of_terminated hback hne
    rw [← List.append_assoc]
    exact terminated_append_feed _

theorem terminated_bytes (lines : List Text) (replaces : Bool) :
    Terminated (Update.bytes { replaces, lines }) := by
  rcases List.eq_nil_or_concat lines with rfl | ⟨front, line, rfl⟩
  · exact terminated_nil
  · rw [List.concat_eq_append, Update.bytes_append, Update.bytes_singleton, ← List.append_assoc]
    exact terminated_append_feed _

theorem parse_append_of_terminated {front : Bytes} (hfront : Terminated front) (back : Bytes) :
    parse (front ++ back) = parse front ++ parse back := by
  by_cases hne : front = []
  · rw [hne, List.nil_append, parse_nil, List.nil_append]
  · obtain ⟨others, rfl⟩ := exists_feed_of_terminated hfront hne
    calc parse (others ++ [10] ++ back)
        = parse others ++ parse back := by
          rw [List.append_assoc, List.singleton_append, parse_append_feed]
      _ = parse (others ++ [10]) ++ parse back := by
          rw [parse_append_feed, parse_nil, List.append_nil]

theorem exists_tail (content : Bytes) :
    ∃ front tail, content = front ++ tail ∧ Terminated front ∧ 10 ∉ tail := by
  refine ⟨content.rdropWhile (· != 10), content.rtakeWhile (· != 10),
    List.rdropWhile_append_rtakeWhile.symm, ?_, fun hfeed => ?_⟩
  · intro byte hbyte
    have hne : content.rdropWhile (· != 10) ≠ [] := by
      intro hnone
      rw [hnone] at hbyte
      cases hbyte
    have hlast := List.rdropWhile_last_not (· != 10) content hne
    rw [List.getLast?_eq_some_getLast hne] at hbyte
    obtain rfl := Option.some.inj hbyte
    simpa using hlast
  · exact absurd (List.mem_rtakeWhile_imp hfeed) (by decide)

theorem parse_of_feed_not_mem {piece : Bytes} (hpiece : 10 ∉ piece) :
    parse piece = [decode piece].filter (!·.isEmpty) := by
  have hwhole : ∀ byte ∈ piece, (byte == 10) = false := by
    intro byte hbyte
    exact beq_false_of_ne fun hten => hpiece (hten ▸ hbyte)
  rw [parse, Text.pieces_of_forall_not hwhole, List.map_singleton]

theorem recordable_of_mem_parse {content : Bytes} {text : Text} (htext : text ∈ parse content) :
    Recordable text := by
  obtain ⟨hdecoded, hfilled⟩ := List.mem_filter.mp htext
  obtain ⟨piece, hpiece, rfl⟩ := List.mem_map.mp hdecoded
  refine ⟨by simpa using hfilled, fun hfeed => ?_, ?_⟩
  · have hten := Utf8.feed_mem_of_mem_decodeLossy ((Text.prefix_trimEnd _ _).subset hfeed)
    exact absurd (Text.not_separates_of_mem_pieces hpiece 10 hten) (by decide)
  · exact List.rdropWhile_idempotent _ _

theorem decode_append_encode (tail : Bytes) {line : Text} (hline : Recordable line) :
    decode (tail ++ Utf8.encode line) = Utf8.decodeLossy tail ++ line := by
  rw [decode, Utf8.decodeLossy_append_encode]
  apply Text.trimEnd_eq_self_iff.mpr
  intro hne
  rw [List.getLast_append_of_ne_nil hne hline.filled]
  exact Text.trimEnd_eq_self_iff.mp hline.keepsEnd hline.filled

/-- Lines behind content: all but the first are records of their own, and the first is one when
there is no tail in front of it. -/
theorem parse_append_bytes {front tail : Bytes} (hfront : Terminated front) (htail : 10 ∉ tail)
    {line : Text} {rest : List Text} (hline : Recordable line)
    (hrest : ∀ text ∈ rest, Recordable text) (replaces : Bool) :
    parse (front ++ tail ++ Update.bytes { replaces, lines := line :: rest }) =
      parse front ++ (Utf8.decodeLossy tail ++ line) :: rest := by
  have hbytes : front ++ tail ++ Update.bytes { replaces, lines := line :: rest } =
      front ++ ((tail ++ Utf8.encode line) ++ 10 :: Update.bytes { replaces, lines := rest }) := by
    rw [Update.bytes, List.flatMap_cons]
    simp [Update.bytes]
  have hpiece : 10 ∉ tail ++ Utf8.encode line := by
    rw [List.mem_append, not_or]
    exact ⟨htail, Utf8.feed_not_mem_encode hline.noFeed⟩
  have hglued : parse (tail ++ Utf8.encode line) = [Utf8.decodeLossy tail ++ line] := by
    rw [parse_of_feed_not_mem hpiece, decode_append_encode tail hline]
    simp [hline.filled]
  rw [hbytes, parse_append_of_terminated hfront, parse_append_feed, hglued, parse_bytes hrest,
    List.singleton_append]

theorem parse_append_bytes_iff {content : Bytes} {lines : List Text}
    (hlines : ∀ line ∈ lines, Recordable line) (replaces : Bool) :
    parse (content ++ Update.bytes { replaces, lines }) = parse content ++ lines ↔
      lines = [] ∨ Terminated content := by
  constructor
  · intro hparse
    by_contra hneither
    obtain ⟨hne, hopen⟩ := not_or.mp hneither
    obtain ⟨line, rest, rfl⟩ := List.exists_cons_of_ne_nil hne
    obtain ⟨hline, hrest⟩ := List.forall_mem_cons.mp hlines
    obtain ⟨front, tail, rfl, hfront, htail⟩ := exists_tail content
    have hfilled : tail ≠ [] := by
      rintro rfl
      exact hopen (by rwa [List.append_nil])
    rw [parse_append_bytes hfront htail hline hrest, parse_append_of_terminated hfront,
      parse_of_feed_not_mem htail, List.append_assoc, List.append_cancel_left_eq] at hparse
    -- A tail that is a record is missing behind the append; one that is none spoils the line.
    by_cases hrecord : (decode tail).isEmpty = true
    · have hglued : Utf8.decodeLossy tail ++ line = line := by simp_all
      exact hfilled (Utf8.decodeLossy_eq_nil_iff.mp (List.append_left_eq_self.mp hglued))
    · have hlength := congrArg List.length hparse
      simp [hrecord] at hlength
  · rintro (rfl | hend)
    · simp [Update.bytes]
    · rw [parse_append_of_terminated hend, parse_bytes hlines]

end Record

end CommandShell.History
