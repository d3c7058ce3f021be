import CommandShell.Host
import CommandShell.Proofs.Line.Accepted
import CommandShell.Proofs.Shell.Queue

/-!
# A line and its accepted part

A line is cut at its first comment and loses the white space at its end, and what is left has
neither. The line end needs no step of its own: it is white space, and it opens no comment. So a
text that was accepted once is accepted as it is, and running it again is running the line.
-/

namespace CommandShell

namespace Line

/-- A `#` behind the text opens a comment: it stands at the start, or behind a blank. -/
def OpensComment (front : Text) : Prop :=
  ∀ last ∈ front.getLast?, Text.isBlank last = true

def Commentless (text : Text) : Prop :=
  ∀ front back, text = front ++ '#' :: back → ¬ OpensComment front

/-- The body is the line in front of its first comment. -/
structure CutAtComment (line body : Text) : Prop where
  commentless : Commentless body
  rest : line = body ∨ ∃ comment, line = body ++ '#' :: comment ∧ OpensComment body

/-! ### The first comment of a line -/

theorem endsBlank_true_iff {front : Text} : endsBlank true front = true ↔ OpensComment front := by
  rw [endsBlank, OpensComment]
  cases front.getLast? <;> simp

theorem stripCommentFrom_eq_self_iff {afterBlank : Bool} {text : Text} :
    stripCommentFrom afterBlank text = text ↔
      ∀ front back, text = front ++ '#' :: back → endsBlank afterBlank front = false := by
  induction text generalizing afterBlank with
  | nil => simp [stripCommentFrom]
  | cons character rest ih =>
      rw [stripCommentFrom]
      split
      · next hcomment =>
        simp only [Bool.and_eq_true, beq_iff_eq] at hcomment
        obtain ⟨rfl, hblank⟩ := hcomment
        refine iff_of_false (List.cons_ne_nil _ _).symm fun hnone => ?_
        exact absurd hblank (Bool.eq_false_iff.mp (hnone [] rest rfl))
      · next hplain =>
        rw [List.cons_inj_right, ih]
        constructor
        · rintro hnone (_ | ⟨first, front⟩) back hsplit
          · obtain ⟨rfl, rfl⟩ := List.cons.inj hsplit
            simpa [endsBlank] using hplain
          · obtain ⟨rfl, hrest⟩ := List.cons.inj hsplit
            rw [endsBlank_cons]
            exact hnone front back hrest
        · rintro hnone front back rfl
          rw [← endsBlank_cons afterBlank]
          exact hnone (character :: front) back rfl

theorem commentless_iff {text : Text} : Commentless text ↔ stripComment text = text := by
  rw [stripComment, stripCommentFrom_eq_self_iff, Commentless]
  simp only [← endsBlank_true_iff, Bool.not_eq_true]

theorem Commentless.of_prefix {text front : Text} (htext : Commentless text)
    (hstart : front <+: text) : Commentless front := by
  obtain ⟨more, rfl⟩ := hstart
  rintro before back rfl
  exact htext before (back ++ more) (by simp)

theorem stripCommentFrom_idempotent (afterBlank : Bool) (line : Text) :
    stripCommentFrom afterBlank (stripCommentFrom afterBlank line) =
      stripCommentFrom afterBlank line := by
  induction line generalizing afterBlank with
  | nil => rfl
  | cons character rest ih =>
      by_cases hcomment : (character == '#' && afterBlank) = true
      · rw [stripCommentFrom, if_pos hcomment, stripCommentFrom]
      · rw [stripCommentFrom, if_neg hcomment, stripCommentFrom, if_neg hcomment, ih]

theorem commentless_stripComment (line : Text) : Commentless (stripComment line) :=
  commentless_iff.mpr (stripCommentFrom_idempotent true line)

/-- Where a line is cut there is a comment, and what is put behind the line does not matter. -/
theorem stripCommentFrom_of_ne {afterBlank : Bool} {line : Text}
    (hcut : stripCommentFrom afterBlank line ≠ line) :
    (∃ comment, line = stripCommentFrom afterBlank line ++ '#' :: comment ∧
        endsBlank afterBlank (stripCommentFrom afterBlank line) = true) ∧
      ∀ back, stripCommentFrom afterBlank (line ++ back) = stripCommentFrom afterBlank line := by
  induction line generalizing afterBlank with
  | nil => exact absurd rfl hcut
  | cons character rest ih =>
      by_cases hcomment : (character == '#' && afterBlank) = true
      · have hnone (later : Text) : stripCommentFrom afterBlank (character :: later) = [] := by
          rw [stripCommentFrom, if_pos hcomment]
        simp only [Bool.and_eq_true, beq_iff_eq] at hcomment
        refine ⟨⟨rest, ?_, ?_⟩, fun back => ?_⟩
        · rw [hnone, hcomment.1, List.nil_append]
        · rw [hnone]
          exact hcomment.2
        · rw [List.cons_append, hnone, hnone]
      · have hkept (later : Text) : stripCommentFrom afterBlank (character :: later) =
            character :: stripCommentFrom (Text.isBlank character) later := by
          rw [stripCommentFrom, if_neg hcomment]
        rw [hkept, ne_eq, List.cons_inj_right] at hcut
        obtain ⟨⟨comment, hline, hblank⟩, hbehind⟩ := ih hcut
        refine ⟨⟨comment, ?_, ?_⟩, fun back => ?_⟩
        · rw [hkept, List.cons_append, ← hline]
        · rwa [hkept, endsBlank_cons]
        · rw [List.cons_append, hkept, hkept, hbehind]

theorem cutAtComment_iff {line body : Text} :
    CutAtComment line body ↔ body = stripComment line := by
  constructor
  · rintro ⟨hbody, rfl | ⟨comment, rfl, hopens⟩⟩
    · exact (commentless_iff.mp hbody).symm
    · have hsame := commentless_iff.mp hbody
      rw [stripComment, stripCommentFrom_append hsame, endsBlank_true_iff.mpr hopens]
      exact (List.append_nil body).symm
  · rintro rfl
    refine ⟨commentless_stripComment line, ?_⟩
    by_cases hsame : stripComment line = line
    · exact .inl hsame.symm
    · obtain ⟨⟨comment, hline, hblank⟩, -⟩ := stripCommentFrom_of_ne hsame
      exact .inr ⟨comment, hline, endsBlank_true_iff.mp hblank⟩

/-! ### The accepted part -/

/-- Line ends go with the white space behind the text, and none of them opens a comment. -/
theorem trimEnd_stripComment_trimEnd (line : Text) :
    Text.trimEnd Text.isSpace (stripComment (Text.trimEnd Text.isLineEnd line)) =
      Text.trimEnd Text.isSpace (stripComment line) := by
  obtain ⟨pad, hpad, hline⟩ := Text.exists_trimEnd_append Text.isLineEnd line
  generalize Text.trimEnd Text.isLineEnd line = front at hline
  subst hline
  by_cases hfront : stripComment front = front
  · have hnone : '#' ∉ pad := fun hmember => absurd (hpad '#' hmember) (by decide)
    have hspace : ∀ character ∈ pad, Text.isSpace character = true := fun character hmember =>
      Text.isSpace_of_isLineEnd (hpad character hmember)
    rw [stripComment, stripComment, stripCommentFrom_append hfront,
      stripCommentFrom_of_not_mem _ hnone, Text.trimEnd_append_of_all hspace, ← stripComment,
      hfront]
  · rw [stripComment, stripComment, (stripCommentFrom_of_ne hfront).2 pad]

theorem accepted?_eq_some_iff {line text : Text} :
    accepted? line = some text ↔
      text ≠ [] ∧ text = Text.trimEnd Text.isSpace (stripComment line) := by
  rw [accepted?]
  simp only [trimEnd_stripComment_trimEnd]
  split
  · next hempty =>
    rw [List.isEmpty_iff] at hempty
    refine iff_of_false nofun ?_
    rintro ⟨hne, rfl⟩
    exact hne hempty
  · next hfilled =>
    rw [List.isEmpty_iff] at hfilled
    rw [Option.some_inj]
    constructor
    · rintro rfl
      exact ⟨hfilled, rfl⟩
    · exact fun hboth => hboth.2.symm

theorem accepted?_eq_none_iff {line : Text} :
    accepted? line = none ↔ ∀ character ∈ stripComment line, Text.isSpace character = true := by
  rw [accepted?]
  simp only [trimEnd_stripComment_trimEnd, ite_eq_left_iff, reduceCtorEq, imp_false, not_not,
    List.isEmpty_iff]
  exact List.rdropWhile_eq_nil_iff

theorem accepted?_of_accepted? {line text : Text} (haccepted : accepted? line = some text) :
    Commentless text ∧ accepted? text = some text := by
  obtain ⟨-, hlast⟩ := prefix_of_accepted? haccepted
  obtain ⟨-, htext⟩ := accepted?_eq_some_iff.mp haccepted
  have hstart : text <+: stripComment line := htext ▸ Text.prefix_trimEnd _ _
  have hcommentless := Commentless.of_prefix (commentless_stripComment line) hstart
  exact ⟨hcommentless, accepted?_eq_self_iff.mpr ⟨hlast, commentless_iff.mp hcommentless⟩⟩

end Line

namespace Shell

variable {World : Type}

/-- What is run of a line is an opening part of it that has neither a comment nor white space at
its end; taken as a line it is accepted whole, and runs as the line does. Nothing is run exactly
when there is only white space in front of the first comment. -/
theorem executeLine_replays (platform : Platform World) (line : Text) :
    (∀ text, Line.accepted? line = some text →
        text <+: line ∧ Line.accepted? text = some text ∧ Line.Commentless text ∧
          (∃ last ∈ text.getLast?, Text.isSpace last = false) ∧
          ∀ (shell : Shell World) (recorded : Bool),
            shell.executeLine platform line recorded = shell.executeLine platform text recorded) ∧
      (Line.accepted? line = none ↔ ∃ body, Line.CutAtComment line body ∧
        ∀ character ∈ body, Text.isSpace character = true) := by
  constructor
  · intro text haccepted
    obtain ⟨hstart, hne, hlast⟩ := Line.prefix_of_accepted? haccepted
    obtain ⟨hcommentless, hself⟩ := Line.accepted?_of_accepted? haccepted
    refine ⟨hstart, hself, hcommentless, ?_, fun shell recorded => ?_⟩
    · exact ⟨_, List.getLast?_eq_some_getLast hne, Bool.eq_false_iff.mpr hlast⟩
    · exact executeLine_congr platform shell (haccepted.trans hself.symm) recorded
  · simp only [Line.cutAtComment_iff, exists_eq_left]
    exact Line.accepted?_eq_none_iff

/-- A line whose comment stands behind white space of several kinds and line ends. -/
theorem executeLine_replays_trimmed :
    let line := "\u2003echo a#b \x0C\r\t# c\r\n".toList
    let text := "\u2003echo a#b".toList
    Line.accepted? line = some text ∧
      ∀ (shell : Shell Host) (recorded : Bool),
        shell.executeLine (Host.platform 2) line recorded =
          shell.executeLine (Host.platform 2) text recorded := by
  intro line text
  have haccepted : Line.accepted? line = some text := by decide
  exact ⟨haccepted, ((executeLine_replays (Host.platform 2) line).1 text haccepted).2.2.2.2⟩

end Shell

end CommandShell
