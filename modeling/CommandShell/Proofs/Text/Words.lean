import CommandShell.Alias
import Mathlib.Data.List.DropRight
import Mathlib.Data.List.TakeDrop

/-!
# Words and the blanks around them

Words are the maximal runs without blanks, so blanks at the ends of a text belong to none. Two texts
with the same trimmed text therefore have the same words and the same first word, and what stands
behind that word differs in blanks at its end only.
-/

namespace CommandShell.Text

/-! ### Trimming -/

section Trim

variable {drops : Char → Bool} {text pad : Text}

theorem prefix_trimEnd (drops : Char → Bool) (text : Text) : trimEnd drops text <+: text :=
  List.rdropWhile_prefix drops text

theorem trimEnd_eq_self_iff :
    trimEnd drops text = text ↔ ∀ hne : text ≠ [], ¬ drops (text.getLast hne) = true :=
  List.rdropWhile_eq_self_iff

theorem trimEnd_append_of_all (hpad : ∀ character ∈ pad, drops character = true) :
    trimEnd drops (text ++ pad) = trimEnd drops text := by
  have hreverse : ∀ character ∈ pad.reverse, drops character = true := by
    intro character hmember
    exact hpad character (List.mem_reverse.mp hmember)
  rw [trimEnd, List.reverse_append, List.dropWhile_append_of_pos hreverse, ← trimEnd]

theorem exists_trimEnd_append (drops : Char → Bool) (text : Text) :
    ∃ pad, (∀ character ∈ pad, drops character = true) ∧ text = trimEnd drops text ++ pad :=
  ⟨text.rtakeWhile drops, fun _ hmember => List.mem_rtakeWhile_imp hmember,
    List.rdropWhile_append_rtakeWhile.symm⟩

theorem trim_append_of_all (hpad : ∀ character ∈ pad, drops character = true) :
    trim drops (text ++ pad) = trim drops text := by
  unfold trim trimStart
  rw [List.dropWhile_append]
  split
  · next hempty =>
    rw [List.isEmpty_iff.mp hempty, List.dropWhile_eq_nil_iff.mpr hpad]
  · exact trimEnd_append_of_all hpad

theorem trim_of_all_append (hpad : ∀ character ∈ pad, drops character = true) :
    trim drops (pad ++ text) = trim drops text := by
  rw [trim, trimStart, List.dropWhile_append_of_pos hpad, ← trimStart, ← trim]

theorem exists_pads (drops : Char → Bool) (text : Text) :
    ∃ left right, (∀ character ∈ left, drops character = true) ∧
      (∀ character ∈ right, drops character = true) ∧
        text = left ++ (trim drops text ++ right) := by
  obtain ⟨right, hright, htext⟩ := exists_trimEnd_append drops (trimStart drops text)
  refine ⟨text.takeWhile drops, right, fun _ hmember => List.mem_takeWhile_imp hmember, hright, ?_⟩
  rw [trim, ← htext, trimStart, List.takeWhile_append_dropWhile]

end Trim

/-! ### Words -/

theorem pieces_append_separator {Item : Type} {separates : Item → Bool} {item : Item}
    (hitem : separates item = true) (front back : List Item) :
    pieces separates (front ++ item :: back) = pieces separates front ++ pieces separates back := by
  induction front with
  | nil => simp [pieces, hitem]
  | cons first rest ih =>
      by_cases hfirst : separates first = true
      · simp [pieces, hfirst, ih]
      · obtain ⟨piece, others, hpieces⟩ := List.exists_cons_of_ne_nil (pieces_ne_nil separates rest)
        simp [pieces, hfirst, ih, hpieces]

theorem pieces_of_forall_not {Item : Type} {separates : Item → Bool} {content : List Item}
    (hcontent : ∀ item ∈ content, separates item = false) :
    pieces separates content = [content] := by
  induction content with
  | nil => rfl
  | cons first rest ih =>
      have hrest : ∀ item ∈ rest, separates item = false := by
        intro item hmember
        exact hcontent item (List.mem_cons_of_mem first hmember)
      rw [pieces, ih hrest]
      simp [hcontent first List.mem_cons_self]

/-- A piece is made of items of the content that do not separate it. -/
theorem forall_mem_pieces {Item : Type} (separates : Item → Bool) (content : List Item) :
    ∀ piece ∈ pieces separates content, ∀ item ∈ piece,
      item ∈ content ∧ separates item = false := by
  induction content with
  | nil => simp [pieces]
  | cons first rest ih =>
      have hlater : ∀ {piece : List Item},
          (∀ item ∈ piece, item ∈ rest ∧ separates item = false) →
            ∀ item ∈ piece, item ∈ first :: rest ∧ separates item = false :=
        fun hpiece item hitem => (hpiece item hitem).imp_left (List.mem_cons_of_mem first)
      obtain ⟨next, others, hpieces⟩ := List.exists_cons_of_ne_nil (pieces_ne_nil separates rest)
      rw [hpieces] at ih
      obtain ⟨hnext, hothers⟩ := List.forall_mem_cons.mp ih
      have hbehind := fun piece hpiece => hlater (hothers piece hpiece)
      rw [pieces, hpieces]
      by_cases hfirst : separates first = true
      · rw [if_pos hfirst]
        exact List.forall_mem_cons.mpr
          ⟨List.forall_mem_nil _, List.forall_mem_cons.mpr ⟨hlater hnext, hbehind⟩⟩
      · rw [if_neg hfirst]
        have hown : first ∈ first :: rest ∧ separates first = false :=
          ⟨List.mem_cons_self, Bool.eq_false_iff.mpr hfirst⟩
        exact List.forall_mem_cons.mpr ⟨List.forall_mem_cons.mpr ⟨hown, hlater hnext⟩, hbehind⟩

theorem not_separates_of_mem_pieces {Item : Type} {separates : Item → Bool}
    {content piece : List Item} (hpiece : piece ∈ pieces separates content) :
    ∀ item ∈ piece, separates item = false :=
  fun item hitem => (forall_mem_pieces separates content piece hpiece item hitem).2

theorem mem_of_mem_pieces {Item : Type} {separates : Item → Bool} {content piece : List Item}
    (hpiece : piece ∈ pieces separates content) : ∀ item ∈ piece, item ∈ content :=
  fun item hitem => (forall_mem_pieces separates content piece hpiece item hitem).1

/-- The runs of a text that hold none of the characters that separate them. -/
def wordsBy (separates : Char → Bool) (text : Text) : List Text :=
  (pieces separates text).filter (!·.isEmpty)

theorem wordsBy_append {separates : Char → Bool} {character : Char}
    (hseparates : separates character = true) (front back : Text) :
    wordsBy separates (front ++ character :: back) =
      wordsBy separates front ++ wordsBy separates back := by
  rw [wordsBy, pieces_append_separator hseparates, List.filter_append, ← wordsBy, ← wordsBy]

theorem words_append_blank {character : Char} (hblank : isBlank character = true)
    (front back : Text) : words (front ++ character :: back) = words front ++ words back :=
  wordsBy_append hblank front back

theorem words_of_all_append {pad : Text} (hpad : ∀ character ∈ pad, isBlank character = true)
    (text : Text) : words (pad ++ text) = words text := by
  induction pad with
  | nil => rfl
  | cons first rest ih =>
      obtain ⟨hfirst, hrest⟩ := List.forall_mem_cons.mp hpad
      have hsplit := words_append_blank hfirst [] (rest ++ text)
      rw [List.nil_append] at hsplit
      rw [List.cons_append, hsplit, ih hrest]
      rfl

theorem words_append_of_all {pad : Text} (hpad : ∀ character ∈ pad, isBlank character = true)
    (text : Text) : words (text ++ pad) = words text := by
  cases pad with
  | nil => rw [List.append_nil]
  | cons first rest =>
      obtain ⟨hfirst, hrest⟩ := List.forall_mem_cons.mp hpad
      have hnone := words_of_all_append hrest []
      rw [List.append_nil] at hnone
      rw [words_append_blank hfirst, hnone]
      exact List.append_nil _

theorem words_trim (text : Text) : words (trim isBlank text) = words text := by
  obtain ⟨left, right, hleft, hright, htext⟩ := exists_pads isBlank text
  conv => rhs; rw [htext, words_of_all_append hleft, words_append_of_all hright]

theorem words_eq_singleton_iff {text : Text} :
    words text = [text] ↔ text ≠ [] ∧ ∀ character ∈ text, isBlank character = false := by
  constructor
  · intro hwords
    have hmember : text ∈ words text := by rw [hwords]; exact List.mem_singleton_self text
    obtain ⟨hpiece, hne⟩ := List.mem_filter.mp hmember
    exact ⟨by simpa using hne, not_separates_of_mem_pieces hpiece⟩
  · rintro ⟨hne, hnone⟩
    rw [words, pieces_of_forall_not hnone]
    simp [hne]

/-! ### Joined parts -/

theorem joined_cons_cons (separator first second : Text) (rest : List Text) :
    joined separator (first :: second :: rest) =
      first ++ separator ++ joined separator (second :: rest) := by
  simp [joined, List.intercalate, List.intersperse]

theorem joined_singleton (separator part : Text) : joined separator [part] = part := by
  simp [joined]

theorem mem_of_mem_joined {separator : Text} {parts : List Text} {character : Char}
    (hcharacter : character ∈ joined separator parts) :
    character ∈ separator ∨ ∃ part ∈ parts, character ∈ part := by
  induction parts with
  | nil => simp [joined] at hcharacter
  | cons first rest ih =>
      cases rest with
      | nil =>
          rw [joined_singleton] at hcharacter
          exact .inr ⟨first, List.mem_cons_self, hcharacter⟩
      | cons second others =>
          rw [joined_cons_cons, List.append_assoc, List.mem_append, List.mem_append] at hcharacter
          rcases hcharacter with hfirst | hseparator | hrest
          · exact .inr ⟨first, List.mem_cons_self, hfirst⟩
          · exact .inl hseparator
          · refine (ih hrest).imp_right ?_
            rintro ⟨part, hpart, hmember⟩
            exact ⟨part, List.mem_cons_of_mem first hpart, hmember⟩

theorem pieces_joined {separator : Char} {parts : List Text} (hne : parts ≠ [])
    (hparts : ∀ part ∈ parts, separator ∉ part) :
    pieces (· == separator) (joined [separator] parts) = parts := by
  have hwhole : ∀ {part : Text}, separator ∉ part → pieces (· == separator) part = [part] := by
    intro part hpart
    refine pieces_of_forall_not fun character hcharacter => beq_false_of_ne ?_
    rintro rfl
    exact hpart hcharacter
  induction parts with
  | nil => exact absurd rfl hne
  | cons first rest ih =>
      obtain ⟨hfirst, hrest⟩ := List.forall_mem_cons.mp hparts
      cases rest with
      | nil => rw [joined_singleton, hwhole hfirst]
      | cons second others =>
          have hpieces : pieces (· == separator)
                (first ++ separator :: joined [separator] (second :: others)) =
              pieces (· == separator) first ++
                pieces (· == separator) (joined [separator] (second :: others)) :=
            @pieces_append_separator _ (· == separator) _ (beq_self_eq_true separator) first _
          rw [hwhole hfirst, ih (List.cons_ne_nil _ _) hrest] at hpieces
          rw [joined_cons_cons, List.append_assoc]
          exact hpieces

theorem joined_pieces (separator : Char) (text : Text) :
    joined [separator] (pieces (· == separator) text) = text := by
  induction text with
  | nil => rfl
  | cons character rest ih =>
      obtain ⟨first, others, hpieces⟩ :=
        List.exists_cons_of_ne_nil (pieces_ne_nil (· == separator) rest)
      rw [hpieces] at ih
      rw [pieces, hpieces]
      by_cases hsame : character = separator
      · subst hsame
        rw [if_pos (beq_self_eq_true character), joined_cons_cons, ih]
        rfl
      · rw [if_neg (by simpa using hsame)]
        cases others with
        | nil => rw [joined_singleton] at ih ⊢; rw [ih]
        | cons second more =>
            rw [joined_cons_cons] at ih ⊢
            rw [← ih]
            rfl

end CommandShell.Text

namespace CommandShell.Alias

theorem firstWord_eq (text : Text) :
    firstWord text =
      ((text.dropWhile Text.isBlank).takeWhile (!Text.isBlank ·),
        (text.dropWhile Text.isBlank).dropWhile (!Text.isBlank ·)) := by
  rw [firstWord, List.span_eq_takeWhile_dropWhile]

/-- A run that ends in front of a text ends there whatever stands before it. -/
theorem span_append_of_stops {keeps : Char → Bool} (text : Text) {rest : Text}
    (hstops : ∀ character ∈ rest.head?, keeps character = false) :
    (text ++ rest).takeWhile keeps = text.takeWhile keeps ∧
      (text ++ rest).dropWhile keeps = text.dropWhile keeps ++ rest := by
  induction text with
  | nil =>
      cases rest with
      | nil => simp
      | cons first others => simp [hstops first rfl]
  | cons first others ih => by_cases hfirst : keeps first = true <;> simp [hfirst, ih]

/-- A run that holds all of a text and ends in front of the rest is that text. -/
theorem span_of_forall {keeps : Char → Bool} {text rest : Text}
    (htext : ∀ character ∈ text, keeps character = true)
    (hstops : ∀ character ∈ rest.head?, keeps character = false) :
    (text ++ rest).takeWhile keeps = text ∧ (text ++ rest).dropWhile keeps = rest := by
  obtain ⟨htake, hdrop⟩ := span_append_of_stops text hstops
  rw [htake, hdrop, List.takeWhile_eq_self_iff.mpr htext, List.dropWhile_eq_nil_iff.mpr htext]
  exact ⟨rfl, List.nil_append rest⟩

theorem stops_dropWhile (keeps : Char → Bool) (text : Text) :
    ∀ character ∈ (text.dropWhile keeps).head?, keeps character = false := by
  intro character hhead
  have hstops := List.head?_dropWhile_not keeps text
  rwa [Option.mem_def.mp hhead] at hstops

/-- Every text is a run and what stands behind it. -/
theorem exists_span (keeps : Char → Bool) (text : Text) :
    ∃ front rest, (∀ character ∈ front, keeps character = true) ∧
      (∀ character ∈ rest.head?, keeps character = false) ∧ text = front ++ rest :=
  ⟨text.takeWhile keeps, text.dropWhile keeps, fun _ => List.mem_takeWhile_imp,
    stops_dropWhile keeps text, List.takeWhile_append_dropWhile.symm⟩

theorem firstWord_append {name rest : Text} (hname : Text.words name = [name])
    (hrest : ∀ character ∈ rest.head?, Text.isBlank character = true) :
    firstWord (name ++ rest) = (name, rest) := by
  obtain ⟨hne, hnone⟩ := Text.words_eq_singleton_iff.mp hname
  have hstart : (name ++ rest).dropWhile Text.isBlank = name ++ rest := by
    cases name with
    | nil => exact absurd rfl hne
    | cons first others => simp [hnone first List.mem_cons_self]
  have hword : ∀ character ∈ name, (!Text.isBlank character) = true := by
    intro character hmember
    simp [hnone character hmember]
  have hstops : ∀ character ∈ rest.head?, (!Text.isBlank character) = false := by
    intro character hmember
    simp [hrest character hmember]
  obtain ⟨htake, hdrop⟩ := span_of_forall hword hstops
  rw [firstWord_eq, hstart, htake, hdrop]

theorem firstWord_of_all_append {pad : Text}
    (hpad : ∀ character ∈ pad, Text.isBlank character = true) (text : Text) :
    firstWord (pad ++ text) = firstWord text := by
  rw [firstWord, List.dropWhile_append_of_pos hpad, ← firstWord]

/-- Blanks behind a text stay behind its first word; in a blank text they vanish. -/
theorem firstWord_append_of_all {pad : Text}
    (hpad : ∀ character ∈ pad, Text.isBlank character = true) (text : Text) :
    ∃ left, (∀ character ∈ left, Text.isBlank character = true) ∧
      firstWord (text ++ pad) = ((firstWord text).1, (firstWord text).2 ++ left) := by
  by_cases hblank : ∀ character ∈ text, Text.isBlank character = true
  · refine ⟨[], by simp, ?_⟩
    have hnone : text.dropWhile Text.isBlank = [] := List.dropWhile_eq_nil_iff.mpr hblank
    have hall : (text ++ pad).dropWhile Text.isBlank = [] := by
      rw [List.dropWhile_append_of_pos hblank, List.dropWhile_eq_nil_iff.mpr hpad]
    rw [firstWord_eq, firstWord_eq, hnone, hall]
    rfl
  · refine ⟨pad, hpad, ?_⟩
    have hstart : (text ++ pad).dropWhile Text.isBlank = text.dropWhile Text.isBlank ++ pad := by
      rw [List.dropWhile_append, if_neg]
      rwa [List.isEmpty_iff, List.dropWhile_eq_nil_iff]
    have hstops : ∀ character ∈ pad.head?, (!Text.isBlank character) = false := by
      intro character hmember
      simp [hpad character (List.mem_of_mem_head? hmember)]
    obtain ⟨htake, hdrop⟩ :=
      span_append_of_stops (text.dropWhile Text.isBlank) hstops
    rw [firstWord_eq, firstWord_eq, hstart, htake, hdrop]

/-- The blanks around a text do not count for its first word, and stay behind it. -/
theorem exists_firstWord_trim (text : Text) :
    ∃ pad, (∀ character ∈ pad, Text.isBlank character = true) ∧
      firstWord text =
        ((firstWord (Text.trim Text.isBlank text)).1,
          (firstWord (Text.trim Text.isBlank text)).2 ++ pad) := by
  obtain ⟨left, right, hleft, hright, htext⟩ := Text.exists_pads Text.isBlank text
  obtain ⟨pad, hpad, hfirst⟩ := firstWord_append_of_all hright (Text.trim Text.isBlank text)
  refine ⟨pad, hpad, ?_⟩
  conv => lhs; rw [htext, firstWord_of_all_append hleft, hfirst]

end CommandShell.Alias
