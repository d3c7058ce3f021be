import CommandShell.Proofs.Line.Cutting
import CommandShell.Proofs.Text.Words

/-!
# Words put together again

A text that neither begins nor ends with a blank, cut into words and joined by spaces, is the text
with each run of blanks brought to one space. That changes no word, and where no two blanks stand
side by side and none is a tab it changes nothing.
-/

namespace CommandShell.Text

/-- A text with one space in place of each run of blanks. -/
def squeezed : Text → Text
  | [] => []
  | character :: rest =>
    if isBlank character then
      if rest.head?.any isBlank then squeezed rest else ' ' :: squeezed rest
    else
      character :: squeezed rest

/-- All blanks are spaces, and no two of them stand side by side. -/
structure SingleSpaced (text : Text) : Prop where
  tab : '\t' ∉ text
  double : ¬ [' ', ' '] <:+: text

variable {character : Char} {text rest : Text}

theorem squeezed_of_double {next : Char} (hblank : isBlank character = true)
    (hnext : isBlank next = true) (rest : Text) :
    squeezed (character :: next :: rest) = squeezed (next :: rest) := by
  rw [squeezed, if_pos hblank, if_pos (by simpa using hnext)]

theorem squeezed_of_single (hblank : isBlank character = true)
    (hnext : rest.head?.any isBlank = false) :
    squeezed (character :: rest) = ' ' :: squeezed rest := by
  rw [squeezed, if_pos hblank, if_neg (Bool.eq_false_iff.mp hnext)]

theorem squeezed_cons (hkept : isBlank character = false) (rest : Text) :
    squeezed (character :: rest) = character :: squeezed rest := by
  rw [squeezed, if_neg (Bool.eq_false_iff.mp hkept)]

/-- A text is read from the left: a blank in front of another, a last blank of its run, or a
character of a word. -/
@[elab_as_elim]
theorem squeezed_induction {motive : Text → Prop} (text : Text) (nil : motive [])
    (double : ∀ character next rest, isBlank character = true → isBlank next = true →
      motive (next :: rest) → motive (character :: next :: rest))
    (single : ∀ character rest, isBlank character = true → rest.head?.any isBlank = false →
      motive rest → motive (character :: rest))
    (letter : ∀ character rest, isBlank character = false → motive rest →
      motive (character :: rest)) : motive text := by
  induction text with
  | nil => exact nil
  | cons character rest ih =>
      cases hblank : isBlank character with
      | false => exact letter character rest hblank ih
      | true =>
          cases hnext : rest.head?.any isBlank with
          | false => exact single character rest hblank hnext ih
          | true =>
              cases rest with
              | nil => cases hnext
              | cons next others => exact double character next others hblank hnext ih

theorem mem_of_mem_squeezed (hmember : character ∈ squeezed text) :
    character ∈ text ∨ character = ' ' := by
  induction text using squeezed_induction with
  | nil => cases hmember
  | double first next rest hblank hnext ih =>
      rw [squeezed_of_double hblank hnext] at hmember
      exact (ih hmember).imp_left (List.mem_cons_of_mem first)
  | single first rest hblank hnext ih =>
      rw [squeezed_of_single hblank hnext] at hmember
      rcases List.mem_cons.mp hmember with hspace | hrest
      · exact .inr hspace
      · exact (ih hrest).imp_left (List.mem_cons_of_mem first)
  | letter first rest hkept ih =>
      rw [squeezed_cons hkept] at hmember
      rcases List.mem_cons.mp hmember with rfl | hrest
      · exact .inl List.mem_cons_self
      · exact (ih hrest).imp_left (List.mem_cons_of_mem first)

theorem squeezed_append_of_forall {front : Text}
    (hfront : ∀ character ∈ front, isBlank character = false) (text : Text) :
    squeezed (front ++ text) = front ++ squeezed text := by
  induction front with
  | nil => rfl
  | cons first rest ih =>
      obtain ⟨hfirst, hrest⟩ := List.forall_mem_cons.mp hfront
      rw [List.cons_append, squeezed_cons hfirst, ih hrest, List.cons_append]

theorem squeezed_concat (hkept : isBlank character = false) (text : Text) :
    squeezed (text ++ [character]) = squeezed text ++ [character] := by
  induction text using squeezed_induction with
  | nil => exact squeezed_cons hkept []
  | double first next rest hblank hnext ih =>
      rw [squeezed_of_double hblank hnext, ← ih]
      exact squeezed_of_double hblank hnext (rest ++ [character])
  | single first rest hblank hnext ih =>
      have hbehind : (rest ++ [character]).head?.any isBlank = false := by
        cases rest with
        | nil => exact hkept
        | cons second others => exact hnext
      rw [List.cons_append, squeezed_of_single hblank hbehind, squeezed_of_single hblank hnext, ih,
        List.cons_append]
  | letter first rest hfirst ih =>
      rw [List.cons_append, squeezed_cons hfirst, squeezed_cons hfirst, ih, List.cons_append]

theorem squeezed_of_singleSpaced (hspaced : SingleSpaced text) : squeezed text = text := by
  have hspace : ∀ {character}, character ∈ text → isBlank character = true → character = ' ' := by
    intro character hmember hblank
    have hcases : character = ' ' ∨ character = '\t' := by simpa [isBlank] using hblank
    refine hcases.resolve_right ?_
    rintro rfl
    exact hspaced.tab hmember
  induction text using squeezed_induction with
  | nil => rfl
  | double first next rest hblank hnext ih =>
      obtain rfl := hspace List.mem_cons_self hblank
      obtain rfl := hspace (List.mem_cons_of_mem _ List.mem_cons_self) hnext
      exact absurd (List.prefix_append [' ', ' '] rest).isInfix hspaced.double
  | single first rest hblank hnext ih =>
      obtain rfl := hspace List.mem_cons_self hblank
      have hrest : SingleSpaced rest :=
        ⟨fun htab => hspaced.tab (List.mem_cons_of_mem _ htab),
          fun hdouble => hspaced.double (hdouble.trans (List.suffix_cons _ rest).isInfix)⟩
      rw [squeezed_of_single hblank hnext,
        ih hrest fun hmember => hspace (List.mem_cons_of_mem _ hmember)]
  | letter first rest hkept ih =>
      have hrest : SingleSpaced rest :=
        ⟨fun htab => hspaced.tab (List.mem_cons_of_mem _ htab),
          fun hdouble => hspaced.double (hdouble.trans (List.suffix_cons _ rest).isInfix)⟩
      rw [squeezed_cons hkept, ih hrest fun hmember => hspace (List.mem_cons_of_mem _ hmember)]

/-! ### The pieces of a squeezed text -/

theorem pieces_blank (hblank : isBlank character = true) (rest : Text) :
    pieces isBlank (character :: rest) = [] :: pieces isBlank rest := by
  rw [pieces, if_pos hblank]

theorem exists_pieces_letter (hkept : isBlank character = false) {first : Text}
    {others : List Text} (hrest : pieces isBlank rest = first :: others) :
    pieces isBlank (character :: rest) = (character :: first) :: others := by
  have hfront : ∀ item ∈ [character], isBlank item = false := by simpa using hkept
  exact pieces_append_of_forall_not hfront hrest

/-- Squeezing leaves the first piece of a text and, but for empty ones, all others. -/
theorem exists_pieces_squeezed (text : Text) :
    ∃ first others others', pieces isBlank text = first :: others ∧
      pieces isBlank (squeezed text) = first :: others' ∧
        others'.filter (!·.isEmpty) = others.filter (!·.isEmpty) := by
  have hspace : isBlank ' ' = true := rfl
  induction text using squeezed_induction with
  | nil => exact ⟨[], [], [], rfl, rfl, rfl⟩
  | double character next rest hblank hnext ih =>
      obtain ⟨first, others, others', hpieces, hsqueezed, hsame⟩ := ih
      have hfirst : first = [] := by
        rw [pieces_blank hnext] at hpieces
        exact (List.cons.inj hpieces).1.symm
      subst hfirst
      refine ⟨[], [] :: others, others', ?_, ?_, hsame⟩
      · rw [pieces_blank hblank, hpieces]
      · rw [squeezed_of_double hblank hnext, hsqueezed]
  | single character rest hblank hnext ih =>
      obtain ⟨first, others, others', hpieces, hsqueezed, hsame⟩ := ih
      refine ⟨[], first :: others, first :: others', ?_, ?_, ?_⟩
      · rw [pieces_blank hblank, hpieces]
      · rw [squeezed_of_single hblank hnext, pieces_blank hspace, hsqueezed]
      · rw [List.filter_cons, List.filter_cons, hsame]
  | letter character rest hkept ih =>
      obtain ⟨first, others, others', hpieces, hsqueezed, hsame⟩ := ih
      refine ⟨character :: first, others, others', exists_pieces_letter hkept hpieces, ?_, hsame⟩
      rw [squeezed_cons hkept, exists_pieces_letter hkept hsqueezed]

theorem words_squeezed (text : Text) : words (squeezed text) = words text := by
  obtain ⟨first, others, others', hpieces, hsqueezed, hsame⟩ := exists_pieces_squeezed text
  rw [words, words, hpieces, hsqueezed, List.filter_cons, List.filter_cons, hsame]

theorem joined_cons_head (separator : Text) (character : Char) (first : Text)
    (others : List Text) :
    joined separator ((character :: first) :: others) =
      character :: joined separator (first :: others) := by
  cases others with
  | nil => rw [joined_singleton, joined_singleton]
  | cons second rest => rw [joined_cons_cons, joined_cons_cons, List.cons_append, List.cons_append]

/-- Where a text ends with its last word, squeezing it is joining its pieces without the empty ones
behind the first. -/
theorem squeezed_eq_joined {first : Text} {others : List Text}
    (hpieces : pieces isBlank text = first :: others)
    (hlast : ∀ character ∈ text.getLast?, isBlank character = false) :
    squeezed text = joined " " (first :: others.filter (!·.isEmpty)) := by
  induction text using squeezed_induction generalizing first others with
  | nil =>
      obtain ⟨rfl, rfl⟩ := List.cons.inj hpieces
      exact (joined_singleton _ _).symm
  | double character next rest hblank hnext ih =>
      rw [pieces_blank hblank, pieces_blank hnext] at hpieces
      obtain ⟨rfl, rfl⟩ := List.cons.inj hpieces
      rw [squeezed_of_double hblank hnext, ih (pieces_blank hnext rest) (by simpa using hlast)]
      rfl
  | single character rest hblank hnext ih =>
      rw [pieces_blank hblank] at hpieces
      obtain ⟨rfl, rfl⟩ := List.cons.inj hpieces
      cases rest with
      | nil => exact absurd (hlast character rfl) (Bool.not_eq_false _ ▸ hblank)
      | cons letter others =>
          have hletter : isBlank letter = false := hnext
          obtain ⟨piece, more, hothers⟩ :=
            List.exists_cons_of_ne_nil (pieces_ne_nil isBlank others)
          have hrest := exists_pieces_letter hletter hothers
          rw [squeezed_of_single hblank hnext, ih hrest (by simpa using hlast), hrest,
            List.filter_cons_of_pos rfl, joined_cons_cons]
          rfl
  | letter character rest hkept ih =>
      obtain ⟨piece, more, hrest⟩ := List.exists_cons_of_ne_nil (pieces_ne_nil isBlank rest)
      rw [exists_pieces_letter hkept hrest] at hpieces
      obtain ⟨rfl, rfl⟩ := List.cons.inj hpieces
      have hend : ∀ last ∈ rest.getLast?, isBlank last = false := by
        intro last hmember
        exact hlast last (by rw [List.getLast?_cons, Option.mem_def.mp hmember]; rfl)
      rw [squeezed_cons hkept, ih hrest hend, joined_cons_head]

/-- Letters in front of a text belong to its first word. -/
theorem words_append_of_forall_not {front first : Text} {others : List Text} (hne : front ≠ [])
    (hfront : ∀ character ∈ front, isBlank character = false)
    (hpieces : pieces isBlank text = first :: others) :
    words (front ++ text) = (front ++ first) :: others.filter (!·.isEmpty) := by
  have hfilled : (!List.isEmpty (front ++ first)) = true := by simp [hne]
  rw [words, pieces_append_of_forall_not hfront hpieces, List.filter_cons, if_pos hfilled]

/-- The words of a text that is enclosed in letters, joined by spaces. -/
theorem joined_words {front : Text} (hne : front ≠ [])
    (hfront : ∀ character ∈ front, isBlank character = false) (text : Text)
    (hkept : isBlank character = false) :
    joined " " (words (front ++ (text ++ [character]))) =
      front ++ (squeezed text ++ [character]) := by
  obtain ⟨first, others, hpieces⟩ :=
    List.exists_cons_of_ne_nil (pieces_ne_nil isBlank (text ++ [character]))
  have hwhole := pieces_append_of_forall_not hfront hpieces
  have hlast : ∀ last ∈ (front ++ (text ++ [character])).getLast?, isBlank last = false := by
    simpa [List.getLast?_append] using hkept
  calc joined " " (words (front ++ (text ++ [character])))
      = joined " " ((front ++ first) :: others.filter (!·.isEmpty)) := by
        rw [words_append_of_forall_not hne hfront hpieces]
    _ = squeezed (front ++ (text ++ [character])) := (squeezed_eq_joined hwhole hlast).symm
    _ = front ++ (squeezed text ++ [character]) := by
        rw [squeezed_append_of_forall hfront, squeezed_concat hkept]

end CommandShell.Text
