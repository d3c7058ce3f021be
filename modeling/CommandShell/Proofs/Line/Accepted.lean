import CommandShell.Line
import CommandShell.Proofs.Text.Words

/-!
# The accepted part of a line

Trimming and cutting off a comment only ever drop the end of a line, so a line that is its own
accepted part is one that neither of them changes. Such lines can be put together again.
-/

namespace CommandShell.Line

/-- Whether a comment may start behind a text that itself stands behind a blank or not. -/
def endsBlank (afterBlank : Bool) (text : Text) : Bool :=
  (text.getLast?.map Text.isBlank).getD afterBlank

theorem endsBlank_cons (afterBlank : Bool) (character : Char) (rest : Text) :
    endsBlank afterBlank (character :: rest) = endsBlank (Text.isBlank character) rest := by
  cases rest with
  | nil => rfl
  | cons first others =>
      rw [endsBlank, endsBlank, List.getLast?_cons_cons]
      cases hlast : (first :: others).getLast? with
      | none => simp at hlast
      | some last => rfl

theorem prefix_stripCommentFrom (afterBlank : Bool) (line : Text) :
    stripCommentFrom afterBlank line <+: line := by
  induction line generalizing afterBlank with
  | nil => exact List.prefix_rfl
  | cons character rest ih =>
      unfold stripCommentFrom
      split
      · exact List.nil_prefix
      · exact (List.prefix_cons_inj character).mpr (ih _)

theorem stripCommentFrom_append {afterBlank : Bool} {front : Text}
    (hfront : stripCommentFrom afterBlank front = front) (back : Text) :
    stripCommentFrom afterBlank (front ++ back) =
      front ++ stripCommentFrom (endsBlank afterBlank front) back := by
  induction front generalizing afterBlank with
  | nil => rfl
  | cons character rest ih =>
      rw [stripCommentFrom] at hfront
      split at hfront
      · cases hfront
      · next hplain =>
        rw [List.cons_append, stripCommentFrom, if_neg hplain, ih (List.cons.inj hfront).2,
          endsBlank_cons, List.cons_append]

theorem stripCommentFrom_of_not_mem (afterBlank : Bool) {text : Text} (hnone : '#' ∉ text) :
    stripCommentFrom afterBlank text = text := by
  induction text generalizing afterBlank with
  | nil => rfl
  | cons character rest ih =>
      rw [List.mem_cons, not_or] at hnone
      obtain ⟨hfirst, hrest⟩ := hnone
      rw [stripCommentFrom, if_neg, ih _ hrest]
      simp [Ne.symm hfirst]

theorem stripCommentFrom_of_stripComment {text : Text} (htext : stripComment text = text)
    (afterBlank : Bool) : stripCommentFrom afterBlank text = text := by
  cases text with
  | nil => rfl
  | cons character rest =>
      rw [stripComment, stripCommentFrom] at htext
      split at htext
      · cases htext
      · next hplain =>
        have hfirst : ¬(character == '#' && afterBlank) = true := by
          intro hcomment
          rw [Bool.and_eq_true] at hcomment
          exact hplain (by simp [hcomment.1])
        rw [stripCommentFrom, if_neg hfirst]
        exact htext

theorem accepted?_eq_self_iff {line : Text} :
    accepted? line = some line ↔
      (∃ hne : line ≠ [], ¬ Text.isSpace (line.getLast hne) = true) ∧ stripComment line = line := by
  constructor
  · intro haccepted
    unfold accepted? at haccepted
    simp only at haccepted
    split at haccepted
    · cases haccepted
    · next hfilled =>
      have htext := Option.some.inj haccepted
      rw [htext] at hfilled
      have hspace := Text.prefix_trimEnd Text.isSpace
        (stripComment (Text.trimEnd Text.isLineEnd line))
      have hcomment := prefix_stripCommentFrom true (Text.trimEnd Text.isLineEnd line)
      have hend := Text.prefix_trimEnd Text.isLineEnd line
      rw [htext] at hspace
      -- Each step keeps a start of the line, and the last one keeps all of it.
      have hendSame : Text.trimEnd Text.isLineEnd line = line :=
        hend.eq_of_length_le (hspace.trans hcomment).length_le
      rw [hendSame] at hspace hcomment htext
      have hcommentSame : stripComment line = line := hcomment.eq_of_length_le hspace.length_le
      rw [hcommentSame] at htext
      refine ⟨⟨by simpa using hfilled, ?_⟩, hcommentSame⟩
      exact Text.trimEnd_eq_self_iff.mp htext _
  · rintro ⟨⟨hne, hlast⟩, hcomment⟩
    have hend : Text.trimEnd Text.isLineEnd line = line :=
      Text.trimEnd_eq_self_iff.mpr fun _ hlineEnd => hlast (Text.isSpace_of_isLineEnd hlineEnd)
    have hspace : Text.trimEnd Text.isSpace line = line :=
      Text.trimEnd_eq_self_iff.mpr fun _ => hlast
    unfold accepted?
    simp [hend, hcomment, hspace, hne]

theorem accepted?_append {front middle back : Text} (hfront : accepted? front = some front)
    (hmiddle : '#' ∉ middle) (hback : accepted? back = some back) :
    accepted? (front ++ (middle ++ back)) = some (front ++ (middle ++ back)) := by
  obtain ⟨-, hfrontComment⟩ := accepted?_eq_self_iff.mp hfront
  obtain ⟨⟨hne, hlast⟩, hbackComment⟩ := accepted?_eq_self_iff.mp hback
  rw [accepted?_eq_self_iff]
  have hwhole : front ++ (middle ++ back) ≠ [] := by simp [hne]
  refine ⟨⟨hwhole, ?_⟩, ?_⟩
  · rwa [List.getLast_append_of_ne_nil _ (by simp [hne]), List.getLast_append_of_ne_nil _ hne]
  · rw [stripComment, stripCommentFrom_append hfrontComment,
      stripCommentFrom_append (stripCommentFrom_of_not_mem _ hmiddle),
      stripCommentFrom_of_stripComment hbackComment]

/-- An accepted part opens its line and ends in no white space. -/
theorem prefix_of_accepted? {line text : Text} (haccepted : accepted? line = some text) :
    text <+: line ∧ ∃ hne : text ≠ [], ¬ Text.isSpace (text.getLast hne) = true := by
  unfold accepted? at haccepted
  simp only at haccepted
  split at haccepted
  · cases haccepted
  · next hfilled =>
    obtain rfl := Option.some.inj haccepted
    have hspace := Text.prefix_trimEnd Text.isSpace
      (stripComment (Text.trimEnd Text.isLineEnd line))
    have hcomment := prefix_stripCommentFrom true (Text.trimEnd Text.isLineEnd line)
    have hend := Text.prefix_trimEnd Text.isLineEnd line
    have hne : Text.trimEnd Text.isSpace
        (stripComment (Text.trimEnd Text.isLineEnd line)) ≠ [] := by
      simpa using hfilled
    exact ⟨hspace.trans (hcomment.trans hend), hne, List.rdropWhile_last_not Text.isSpace _ hne⟩

end CommandShell.Line
