import CommandShell.Alias

/-!
# Cutting a text that is put together

A text is cut into segments from the left, two characters at a time where an operator has two. So a
cut of `front ++ back` is the cut of `front` followed by that of `back`, with one text glued
together where they meet, as long as `back` does not open with the second half of an operator.
-/

namespace CommandShell.Chain

/-- No chain operator occurs anywhere in a text. -/
def Plain (text : Text) : Prop :=
  ∀ operator : Operator, operator ≠ .start → ¬ operator.spelling <:+: text

/-- No operator stands at the start of a text. -/
def OpensPlain (text : Text) : Prop :=
  ∀ operator : Operator, operator ≠ .start → ¬ operator.spelling <+: text

/-- A text that cannot complete an operator whose first half stands in front of it. -/
def OpensFresh : Text → Prop
  | '&' :: _ => False
  | '|' :: _ => False
  | _ => True

/-- A cut of which the last text goes on with the first text of another. -/
def glue (text : Text) : List (Operator × Text) → Text × List (Operator × Text) →
    Text × List (Operator × Text)
  | [], next => (text ++ next.1, next.2)
  | (operator, following) :: rest, next =>
    (text, (operator, (glue following rest next).1) :: (glue following rest next).2)

/-- The segments of a cut whose first text stands behind the given operator. -/
def segments (operator : Operator) (expanded : Bool) (found : Text × List (Operator × Text)) :
    List Segment :=
  { text := found.1, operator, expanded } ::
    found.2.map fun (operator, text) => { text, operator, expanded }

theorem split_eq_segments (line : Text) : split line = segments .start false (cut line) := rfl

theorem opensFresh_of_isBlank {character : Char} (hblank : Text.isBlank character = true)
    (rest : Text) : OpensFresh (character :: rest) := by
  simp only [Text.isBlank, Bool.or_eq_true, beq_iff_eq] at hblank
  rcases hblank with rfl | rfl <;> trivial

theorem OpensFresh.of_start {text whole : Text} (hfresh : OpensFresh whole)
    (hstart : text <+: whole) : OpensFresh text := by
  obtain ⟨rest, rfl⟩ := hstart
  cases text with
  | nil => trivial
  | cons first others =>
      rw [List.cons_append] at hfresh
      unfold OpensFresh at hfresh ⊢
      split at hfresh <;> simp_all

/-! ### The steps of a cut -/

theorem cut_spelling {operator : Operator} (hoperator : operator ≠ .start) (rest : Text) :
    cut (operator.spelling ++ rest) = ([], (operator, (cut rest).1) :: (cut rest).2) := by
  cases operator with
  | start => exact absurd rfl hoperator
  | seq | and | or => rfl

theorem cut_cons {character : Char} {rest : Text} (hopens : OpensPlain (character :: rest)) :
    cut (character :: rest) = (character :: (cut rest).1, (cut rest).2) := by
  apply cut.eq_5
  · rintro rfl
    exact hopens .seq (by decide) ⟨rest, rfl⟩
  · rintro others rfl rfl
    exact hopens .and (by decide) ⟨others, rfl⟩
  · rintro others rfl rfl
    exact hopens .or (by decide) ⟨others, rfl⟩

/-- A text is read from the left, at each step an operator or one character. -/
@[elab_as_elim]
theorem cut_induction {motive : Text → Prop} (line : Text) (nil : motive [])
    (sign : ∀ (operator : Operator) (rest : Text), operator ≠ .start → motive rest →
      motive (operator.spelling ++ rest))
    (letter : ∀ (character : Char) (rest : Text), OpensPlain (character :: rest) →
      motive rest → motive (character :: rest)) : motive line := by
  induction line using cut.induct with
  | case1 => exact nil
  | case2 rest ih => exact sign .seq rest (by decide) ih
  | case3 rest ih => exact sign .and rest (by decide) ih
  | case4 rest ih => exact sign .or rest (by decide) ih
  | case5 first rest hseq hand hor ih =>
      refine letter first rest (fun operator hoperator hopens => ?_) ih
      obtain ⟨others, hothers⟩ := hopens
      cases operator with
      | start => exact hoperator rfl
      | seq => exact hseq (List.cons.inj hothers).1.symm
      | and =>
          exact hand others (List.cons.inj hothers).1.symm (List.cons.inj hothers).2.symm
      | or => exact hor others (List.cons.inj hothers).1.symm (List.cons.inj hothers).2.symm

/-! ### Two texts put together -/

/-- Two characters decide whether an operator stands at the start. -/
theorem OpensPlain.append_of_two_le {front : Text} (hopens : OpensPlain front)
    (htwo : 2 ≤ front.length) (back : Text) : OpensPlain (front ++ back) := by
  intro operator hoperator hstart
  have hshort : operator.spelling.length ≤ 2 := by cases operator <;> decide
  exact hopens operator hoperator
    (List.prefix_of_prefix_length_le hstart (List.prefix_append front back)
      (Nat.le_trans hshort htwo))

/-- An operator whose first half ends `front` is completed by `front` itself. -/
theorem OpensPlain.append_of_opensFresh {character : Char} {front back : Text}
    (hopens : OpensPlain (character :: front)) (hfresh : OpensFresh back) :
    OpensPlain (character :: (front ++ back)) := by
  cases front with
  | cons second others => exact hopens.append_of_two_le (by simp) back
  | nil =>
      rintro operator hoperator ⟨rest, hrest⟩
      cases operator with
      | start => exact hoperator rfl
      | seq =>
          obtain rfl : ';' = character := (List.cons.inj hrest).1
          exact hopens .seq hoperator List.prefix_rfl
      | and =>
          obtain rfl : '&' :: rest = back := (List.cons.inj hrest).2
          exact hfresh
      | or =>
          obtain rfl : '|' :: rest = back := (List.cons.inj hrest).2
          exact hfresh

theorem OpensPlain.of_prefix {text whole : Text} (hopens : OpensPlain whole)
    (hstart : text <+: whole) : OpensPlain text :=
  fun operator hoperator hwithin => hopens operator hoperator (hwithin.trans hstart)

theorem cut_append (front : Text) {back : Text} (hfresh : OpensFresh back) :
    cut (front ++ back) = glue (cut front).1 (cut front).2 (cut back) := by
  induction front using cut_induction with
  | nil => simp [cut, glue]
  | sign operator rest hoperator ih =>
      rw [List.append_assoc, cut_spelling hoperator, cut_spelling hoperator, ih, glue]
  | letter character rest hopens ih =>
      have hwhole : OpensPlain (character :: (rest ++ back)) :=
        hopens.append_of_opensFresh hfresh
      rw [List.cons_append, cut_cons hwhole, cut_cons hopens, ih]
      cases (cut rest).2 <;> simp [glue]

theorem Plain.of_cons {character : Char} {text : Text} (hplain : Plain (character :: text)) :
    Plain text := by
  intro operator hoperator hwithin
  exact hplain operator hoperator (hwithin.trans (List.suffix_cons character text).isInfix)

theorem Plain.opensPlain {text : Text} (hplain : Plain text) : OpensPlain text :=
  fun operator hoperator hstart => hplain operator hoperator hstart.isInfix

theorem cut_of_plain {text : Text} (hplain : Plain text) : cut text = (text, []) := by
  induction text using cut_induction with
  | nil => rfl
  | sign operator rest hoperator ih =>
      exact absurd (List.prefix_append operator.spelling rest).isInfix
        (hplain operator hoperator)
  | letter character rest hopens ih => rw [cut_cons hopens, ih hplain.of_cons]

theorem plain_of_cut_snd {text : Text} (hsnd : (cut text).2 = []) : Plain text := by
  induction text using cut_induction with
  | nil =>
      intro operator hoperator hwithin
      cases operator with
      | start => exact hoperator rfl
      | seq | and | or => cases List.infix_nil.mp hwithin
  | sign operator rest hoperator ih =>
      rw [cut_spelling hoperator] at hsnd
      cases hsnd
  | letter character rest hopens ih =>
      rw [cut_cons hopens] at hsnd
      intro operator hoperator hwithin
      rcases List.infix_cons_iff.mp hwithin with hstart | hrest
      · exact hopens operator hoperator hstart
      · exact ih hsnd operator hoperator hrest

theorem plain_iff {text : Text} : Plain text ↔ (cut text).2 = [] :=
  ⟨fun hplain => by rw [cut_of_plain hplain], plain_of_cut_snd⟩

instance (text : Text) : Decidable (Plain text) := decidable_of_iff _ plain_iff.symm

theorem Plain.append {front back : Text} (hfront : Plain front) (hback : Plain back)
    (hfresh : OpensFresh back) : Plain (front ++ back) := by
  rw [plain_iff, cut_append front hfresh, cut_of_plain hfront, cut_of_plain hback]
  rfl

/-- Characters of no operator may stand in front of any text. -/
theorem Plain.append_front {front back : Text} (hback : Plain back)
    (hfront : ∀ operator : Operator, ∀ character ∈ operator.spelling, character ∉ front) :
    Plain (front ++ back) := by
  induction front with
  | nil => exact hback
  | cons first rest ih =>
      intro operator hoperator hwithin
      rcases List.infix_cons_iff.mp hwithin with ⟨more, hmore⟩ | hrest
      · have hfirst : first ∈ operator.spelling := by
          cases operator with
          | start => exact absurd rfl hoperator
          | seq | and | or => exact (List.cons.inj hmore).1 ▸ List.mem_cons_self
        exact hfront operator first hfirst List.mem_cons_self
      · exact ih (fun other character hcharacter hmember =>
          hfront other character hcharacter (List.mem_cons_of_mem first hmember))
            operator hoperator hrest

theorem prefix_cut_fst (text : Text) : (cut text).1 <+: text := by
  induction text using cut_induction with
  | nil => exact List.prefix_rfl
  | sign operator rest hoperator ih =>
      rw [cut_spelling hoperator]
      exact List.nil_prefix
  | letter character rest hopens ih =>
      rw [cut_cons hopens]
      exact (List.prefix_cons_inj character).mpr ih

/-- The text in front of the first operator holds none. -/
theorem cut_cut_fst (text : Text) : cut (cut text).1 = ((cut text).1, []) := by
  induction text using cut_induction with
  | nil => rfl
  | sign operator rest hoperator ih =>
      rw [cut_spelling hoperator]
      rfl
  | letter character rest hopens ih =>
      have hfirst : OpensPlain (character :: (cut rest).1) :=
        hopens.of_prefix ((List.prefix_cons_inj character).mpr (prefix_cut_fst rest))
      rw [cut_cons hopens, cut_cons hfirst, ih]

theorem segments_glue (operator : Operator) (expanded : Bool) (text : Text)
    (others : List (Operator × Text)) (next : Text × List (Operator × Text)) :
    segments operator expanded (glue text others next) =
      segments operator expanded (glue text others (next.1, [])) ++
        next.2.map fun part => { text := part.2, operator := part.1, expanded } := by
  induction others generalizing operator text with
  | nil => simp [glue, segments]
  | cons entry rest ih =>
      have htail := ih entry.1 entry.2
      simp only [segments] at htail ⊢
      simp only [glue, List.map_cons, List.cons_append, htail]

/-- What stands behind the first operator of `back` is queued as it would be by itself. -/
theorem split_append (front : Text) {back : Text} (hfresh : OpensFresh back) :
    split (front ++ back) = split (front ++ (cut back).1) ++
      (cut back).2.map fun part => { text := part.2, operator := part.1 } := by
  rw [split_eq_segments, split_eq_segments, cut_append front hfresh,
    cut_append front (hfresh.of_start (prefix_cut_fst back)), cut_cut_fst, segments_glue]

end CommandShell.Chain
