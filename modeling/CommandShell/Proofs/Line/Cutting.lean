import CommandShell.Proofs.Line.Accepted
import CommandShell.Proofs.Text.Utf8
import Mathlib.Data.List.Forall2

/-!
# Three ways to cut content into lines

A byte stream is cut at line feeds, a text at line feeds with one carriage return in front of them,
and an editor takes bytes as a text is cut. On bytes that are written text all of them find the same
lines, up to the end that is trimmed off a line before it is run.
-/

namespace CommandShell

namespace Text

theorem pieces_append_of_forall_not {Item : Type} {separates : Item → Bool} {front back : List Item}
    (hfront : ∀ item ∈ front, separates item = false) {first : List Item}
    {others : List (List Item)} (hback : pieces separates back = first :: others) :
    pieces separates (front ++ back) = (front ++ first) :: others := by
  induction front with
  | nil => exact hback
  | cons item rest ih =>
      obtain ⟨hitem, hrest⟩ := List.forall_mem_cons.mp hfront
      rw [List.cons_append, pieces, ih hrest, if_neg (by simp [hitem])]
      rfl

theorem pieces_encode (text : Text) :
    pieces (· == 10) (Utf8.encode text) = (pieces (· == '\n') text).map Utf8.encode := by
  induction text with
  | nil => rfl
  | cons character rest ih =>
      obtain ⟨first, others, hrest⟩ :=
        List.exists_cons_of_ne_nil (pieces_ne_nil (· == '\n') rest)
      rw [hrest, List.map_cons] at ih
      have hencode : Utf8.encode (character :: rest) =
          String.utf8EncodeChar character ++ Utf8.encode rest := List.flatMap_cons
      by_cases hfeed : character = '\n'
      · subst hfeed
        have hten : String.utf8EncodeChar '\n' = [10] := by decide
        rw [hencode, hten, List.singleton_append, pieces, if_pos (beq_self_eq_true _), ih, pieces,
          if_pos (beq_self_eq_true _), hrest]
        rfl
      · -- No other character is written with the byte of a line feed.
        have hwhole : ∀ byte ∈ String.utf8EncodeChar character, (byte == 10) = false := by
          intro byte hbyte
          apply beq_false_of_ne
          rintro rfl
          exact hfeed (Utf8.feed_of_mem_utf8EncodeChar hbyte)
        rw [hencode, pieces_append_of_forall_not hwhole ih, pieces, hrest]
        simp [hfeed, Utf8.encode]

end Text

namespace Line

/-- What stands between line feeds; what follows the last one counts when it is not empty. -/
def cut {Item : Type} [DecidableEq Item] (feed : Item) (content : List Item) : List (List Item) :=
  let found := Text.pieces (· == feed) content
  found.dropLast ++ found.getLast?.toList.filter (!·.isEmpty)

theorem ofBytes_eq_cut (content : Bytes) : ofBytes content = cut 10 content :=
  rfl

theorem isEmpty_encode (text : Text) : (Utf8.encode text).isEmpty = text.isEmpty := by
  cases text with
  | nil => rfl
  | cons character rest =>
      obtain ⟨byte, tail, hbytes, -⟩ := Utf8.next_utf8EncodeChar character
      simp [Utf8.encode, hbytes]

theorem filter_isEmpty_map_encode (lines : List Text) :
    (lines.map Utf8.encode).filter (!·.isEmpty) =
      (lines.filter (!·.isEmpty)).map Utf8.encode := by
  rw [List.filter_map]
  congr 2
  funext line
  simp [isEmpty_encode]

theorem toList_getLast?_map_encode (lines : List Text) :
    (lines.map Utf8.encode).getLast?.toList = lines.getLast?.toList.map Utf8.encode := by
  rw [List.getLast?_map]
  cases lines.getLast? <;> rfl

theorem cut_encode (text : Text) : cut 10 (Utf8.encode text) = (cut '\n' text).map Utf8.encode := by
  simp only [cut, Text.pieces_encode, ← List.map_dropLast, List.map_append,
    toList_getLast?_map_encode, filter_isEmpty_map_encode]

/-- The lines that a reader takes from written text. -/
theorem ofBytes_encode (text : Text) :
    (ofBytes (Utf8.encode text)).map Utf8.decodeLossy = cut '\n' text := by
  rw [ofBytes_eq_cut, cut_encode, List.map_map]
  exact (List.map_congr_left fun line _ => Utf8.decodeLossy_encode line).trans (List.map_id _)

/-- A line without one carriage return at its end. -/
def withoutReturn {Item : Type} [DecidableEq Item] (carriageReturn : Item) (line : List Item) :
    List Item :=
  if line.getLast? = some carriageReturn then line.dropLast else line

theorem withoutReturn_encode (line : Text) :
    withoutReturn 13 (Utf8.encode line) = Utf8.encode (withoutReturn '\r' line) := by
  rcases List.eq_nil_or_concat line with rfl | ⟨front, character, rfl⟩
  · rfl
  · rw [List.concat_eq_append]
    have hencode : Utf8.encode (front ++ [character]) =
        Utf8.encode front ++ String.utf8EncodeChar character := by
      rw [Utf8.encode, List.flatMap_append, List.flatMap_singleton, ← Utf8.encode]
    by_cases hreturn : character = '\r'
    · subst hreturn
      have hthirteen : String.utf8EncodeChar '\r' = [13] := by decide
      rw [hthirteen] at hencode
      simp only [withoutReturn, hencode, List.getLast?_concat, if_true, List.dropLast_concat]
    · have hne : String.utf8EncodeChar character ≠ [] := by
        obtain ⟨byte, tail, hbytes, -⟩ := Utf8.next_utf8EncodeChar character
        rw [hbytes]
        exact List.cons_ne_nil byte tail
      have hlast : (Utf8.encode (front ++ [character])).getLast? ≠ some 13 := by
        rw [hencode, List.getLast?_append_of_ne_nil _ hne]
        intro hlast
        exact hreturn (Utf8.return_of_mem_utf8EncodeChar (List.mem_of_getLast? hlast))
      have hsame : (front ++ [character]).getLast? ≠ some '\r' := by simpa using hreturn
      rw [withoutReturn, if_neg hlast, withoutReturn, if_neg hsame]

theorem accepted?_withoutReturn (line : Text) :
    accepted? (withoutReturn '\r' line) = accepted? line := by
  unfold withoutReturn
  split
  · next hreturn =>
    obtain ⟨front, rfl⟩ := List.getLast?_eq_some_iff.mp hreturn
    have hpad : ∀ character ∈ ['\r'], Text.isLineEnd character = true :=
      List.forall_mem_singleton.mpr rfl
    rw [List.dropLast_concat, accepted?, accepted?, Text.trimEnd_append_of_all hpad]
  · rfl

/-- The lines that an editor takes from written text. -/
theorem typed_encode (text : Text) : typed (Utf8.encode text) = (ofText text).map Utf8.encode := by
  have hended : ∀ {Item : Type} [DecidableEq Item] (feed carriageReturn : Item)
      (content : List Item), ended feed carriageReturn content =
        (Text.pieces (· == feed) content).dropLast.map (withoutReturn carriageReturn) ++
          (Text.pieces (· == feed) content).getLast?.toList.filter (!·.isEmpty) :=
    fun _ _ _ => rfl
  rw [typed, ofText, hended, hended, Text.pieces_encode, ← List.map_dropLast, List.map_map,
    List.map_append, List.map_map, toList_getLast?_map_encode, filter_isEmpty_map_encode]
  exact congrArg (· ++ _) (List.map_congr_left fun line _ => withoutReturn_encode line)

/-- A text has the lines that a reader takes from it, as far as they are run. -/
theorem accepted?_ofText (text : Text) :
    List.Forall₂ (fun line other => accepted? line = accepted? other) (cut '\n' text)
      (ofText text) := by
  refine List.rel_append ?_ (List.forall₂_same.mpr fun line _ => rfl)
  rw [List.forall₂_map_right_iff]
  exact List.forall₂_same.mpr fun line _ => (accepted?_withoutReturn line).symm

theorem mem_of_mem_ofText {text line : Text} (hline : line ∈ ofText text) :
    ∀ character ∈ line, character ∈ text := by
  intro character hcharacter
  rcases List.mem_append.mp hline with hended | hlast
  · obtain ⟨piece, hpiece, rfl⟩ := List.mem_map.mp hended
    have hkept : character ∈ piece := by
      split at hcharacter
      · exact List.dropLast_subset _ hcharacter
      · exact hcharacter
    exact Text.mem_of_mem_pieces (List.dropLast_subset _ hpiece) character hkept
  · have hpiece := List.mem_of_getLast? (Option.mem_toList.mp (List.mem_of_mem_filter hlast))
    exact Text.mem_of_mem_pieces hpiece character hcharacter

end Line

end CommandShell
