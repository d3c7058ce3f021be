import CommandShell.History
import CommandShell.Proofs.Line.Accepted
import CommandShell.Proofs.Text.Utf8

/-!
# The lines of a history file

A line feed ends a record and occurs in none, so content that ends in one is read record by record.
What is accepted of an input line is a text that comes back from its record unchanged.
-/

namespace CommandShell.History

/-- A text that is one record of a file, and nothing less. -/
structure Recordable (text : Text) : Prop where
  filled : text ≠ []
  noFeed : '\n' ∉ text
  keepsEnd : Text.trimEnd Text.isLineEnd text = text

namespace Record

theorem decode_encode {text : Text} (htext : Recordable text) :
    decode (Utf8.encode text) = text := by
  rw [decode, Utf8.decodeLossy_encode, htext.keepsEnd]

theorem parse_nil : parse [] = [] := by
  simp [parse, Text.pieces, decode, Utf8.decodeLossy, Utf8.characters, Text.trimEnd]

theorem parse_append_feed (front back : Bytes) :
    parse (front ++ 10 :: back) = parse front ++ parse back := by
  have hpieces : Text.pieces (· == 10) (front ++ 10 :: back) =
      Text.pieces (· == 10) front ++ Text.pieces (· == 10) back :=
    Text.pieces_append_separator rfl front back
  rw [parse, hpieces, List.map_append, List.filter_append, ← parse, ← parse]

theorem parse_encode {text : Text} (htext : Recordable text) :
    parse (Utf8.encode text) = [text] := by
  have hwhole : ∀ byte ∈ Utf8.encode text, (byte == 10) = false := by
    intro byte hbyte
    apply beq_false_of_ne
    rintro rfl
    exact Utf8.feed_not_mem_encode htext.noFeed hbyte
  rw [parse, Text.pieces_of_forall_not hwhole, List.map_singleton, decode_encode htext]
  simp [htext.filled]

theorem parse_bytes_cons (replaces : Bool) (line : Text) (rest : List Text) :
    parse (Update.bytes { replaces, lines := line :: rest }) =
      parse (Utf8.encode line) ++ parse (Update.bytes { replaces, lines := rest }) := by
  have hbytes : Update.bytes { replaces, lines := line :: rest } =
      Utf8.encode line ++ 10 :: Update.bytes { replaces, lines := rest } := by
    simp [Update.bytes]
  rw [hbytes, parse_append_feed]

theorem parse_bytes {lines : List Text} (hlines : ∀ line ∈ lines, Recordable line)
    (replaces : Bool) : parse (Update.bytes { replaces, lines }) = lines := by
  induction lines with
  | nil => exact parse_nil
  | cons line rest ih =>
      obtain ⟨hline, hrest⟩ := List.forall_mem_cons.mp hlines
      rw [parse_bytes_cons, parse_encode hline, ih hrest, List.singleton_append]

end Record

theorem recordable_of_accepted? {line text : Text} (hline : '\n' ∉ line)
    (haccepted : Line.accepted? line = some text) : Recordable text := by
  obtain ⟨hstart, hne, hlast⟩ := Line.prefix_of_accepted? haccepted
  refine ⟨hne, fun hfeed => hline (hstart.subset hfeed), ?_⟩
  apply Text.trimEnd_eq_self_iff.mpr
  intro _ hend
  exact hlast (Text.isSpace_of_isLineEnd hend)

theorem mem_pieces_of_mem_ofBytes {content piece : Bytes} (hpiece : piece ∈ Line.ofBytes content) :
    piece ∈ Text.pieces (· == 10) content := by
  rcases List.mem_append.mp hpiece with hfront | hlast
  · exact List.dropLast_subset _ hfront
  · exact List.mem_of_getLast? (Option.mem_toList.mp (List.mem_of_mem_filter hlast))

/-- Decoding puts no line feed into a line that was cut off at one. -/
theorem feed_not_mem_of_mem_ofBytes {content piece : Bytes}
    (hpiece : piece ∈ Line.ofBytes content) : '\n' ∉ Utf8.decodeLossy piece := by
  intro hfeed
  have hten := Utf8.feed_mem_of_mem_decodeLossy hfeed
  have hcut := mem_pieces_of_mem_ofBytes hpiece
  exact absurd (Text.not_separates_of_mem_pieces hcut 10 hten) (by decide)

theorem nul_not_mem_of_mem_ofBytes {content piece : Bytes} (hcontent : 0 ∉ content)
    (hpiece : piece ∈ Line.ofBytes content) : '\x00' ∉ Utf8.decodeLossy piece := by
  intro hnul
  have hzero := Utf8.nul_mem_of_mem_decodeLossy hnul
  exact hcontent (Text.mem_of_mem_pieces (mem_pieces_of_mem_ofBytes hpiece) 0 hzero)

end CommandShell.History
