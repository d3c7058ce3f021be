import CommandShell.Alias.Definition
import CommandShell.Proofs.Shell.Queue
import CommandShell.Proofs.Variable.Tokens
import Mathlib.Data.Nat.Digits.Defs

/-!
# Where the characters of a command come from

A line is cut, its aliases and references are replaced, and its words are read as definitions; none
of these makes a character up. What is found in a word was in the line, in the value of an alias or
of a variable, or is part of a number.
-/

namespace CommandShell

/-! ### Bindings -/

namespace Bindings

variable {bindings : Bindings} {name value : Text} {entry : Text × Text}

theorem mem_of_get?_eq_some (hfound : bindings.get? name = some value) :
    (name, value) ∈ bindings.toList := by
  obtain ⟨entry, hentry, rfl⟩ := Option.map_eq_some_iff.mp hfound
  have hname : entry.1 = name := by simpa using List.find?_some hentry
  rw [← hname]
  exact List.mem_of_find?_eq_some hentry

theorem mem_put (hentry : entry ∈ (bindings.put name value).toList) :
    entry ∈ bindings.toList ∨ entry = (name, value) := by
  obtain ⟨entries⟩ := bindings
  simp only [put] at hentry ⊢
  induction entries with
  | nil => exact .inr (List.mem_singleton.mp hentry)
  | cons first rest ih =>
      rw [putEntry] at hentry
      split at hentry
      · next hsame =>
        rcases List.mem_cons.mp hentry with rfl | hrest
        · exact .inr (Prod.ext hsame rfl)
        · exact .inl (List.mem_cons_of_mem first hrest)
      · rcases List.mem_cons.mp hentry with rfl | hrest
        · exact .inl List.mem_cons_self
        · exact (ih hrest).imp_left (List.mem_cons_of_mem first)

end Bindings

/-! ### Segments -/

theorem Chain.infix_of_mem_segments_cut (before : Operator) (expanded : Bool) (line : Text) :
    ∀ segment ∈ segments before expanded (cut line), segment.text <:+: line := by
  induction line using cut_induction generalizing before with
  | nil => simp [segments, cut]
  | sign operator rest hoperator ih =>
      rw [cut_spelling hoperator]
      refine List.forall_mem_cons.mpr ⟨List.nil_infix, ?_⟩
      intro segment hsegment
      exact (ih operator segment hsegment).trans (List.suffix_append _ rest).isInfix
  | letter character rest hopens ih =>
      obtain ⟨-, hlater⟩ := List.forall_mem_cons.mp (ih before)
      rw [cut_cons hopens]
      refine List.forall_mem_cons.mpr ⟨?_, ?_⟩
      · exact ((List.prefix_cons_inj character).mpr (prefix_cut_fst rest)).isInfix
      · intro segment hsegment
        exact (hlater segment hsegment).trans (List.suffix_cons character rest).isInfix

theorem Chain.infix_of_mem_split {line : Text} {segment : Segment}
    (hsegment : segment ∈ split line) : segment.text <:+: line :=
  infix_of_mem_segments_cut .start false line segment hsegment

/-- What an alias puts in the place of a segment is made of its value and of the segment. -/
theorem Shell.mem_of_mem_resolve {aliases : Bindings} {segment piece : Segment}
    (hpiece : piece = (resolve aliases segment).1 ∨ piece ∈ (resolve aliases segment).2)
    {character : Char} (hcharacter : character ∈ piece.text) :
    character ∈ segment.text ∨ ∃ entry ∈ aliases.toList, character ∈ entry.2 := by
  unfold resolve at hpiece
  split at hpiece
  · rcases hpiece with rfl | hnone
    · exact .inl hcharacter
    · cases hnone
  · split at hpiece
    · next first others hexpand =>
      have hmember : piece ∈ first :: others := List.mem_cons.mpr hpiece
      rw [Alias.expand?_eq] at hexpand
      obtain ⟨value, hvalue, hpieces⟩ := Option.map_eq_some_iff.mp hexpand
      rw [← hpieces] at hmember
      have hwithin := Chain.infix_of_mem_segments_cut segment.operator true _ piece hmember
      rcases List.mem_append.mp (hwithin.subset hcharacter) with halias | hrest
      · exact .inr ⟨_, Bindings.mem_of_get?_eq_some hvalue, halias⟩
      · refine .inl ((List.dropWhile_suffix Text.isBlank).subset ?_)
        rw [Alias.firstWord_eq] at hrest
        exact (List.dropWhile_suffix _).subset hrest
    · rcases hpiece with rfl | hnone
      · exact .inl hcharacter
      · cases hnone

/-! ### Words -/

namespace Variable

theorem mem_of_literal_mem_tokens {word : Text} {character : Char}
    (htoken : .literal character ∈ tokens word) : character ∈ word := by
  rw [← (factors_tokens word).spell_eq]
  exact List.mem_flatMap.mpr ⟨_, htoken, List.mem_singleton_self character⟩

/-- What a reference stands for that is no number comes from the value of a variable. -/
theorem Context.mem_of_mem_expand {context : Context} {word : Text} {character : Char}
    (hcharacter : character ∈ context.expand word) :
    character ∈ word ∨ (∃ entry ∈ context.bindings.toList, character ∈ entry.2) ∨
      character.isDigit = true ∨ character = '-' := by
  have hdigits {value : Nat} (hmember : character ∈ Decimal.ofNat value) :
      character.isDigit = true :=
    Nat.isDigit_of_mem_toDigits (by decide) (by decide) hmember
  obtain ⟨token, htoken, hvalue⟩ := List.mem_flatMap.mp hcharacter
  cases token with
  | process => exact .inr (.inr (.inl (hdigits hvalue)))
  | status =>
      refine .inr (.inr ?_)
      unfold value Decimal.ofInt at hvalue
      simp only at hvalue
      split at hvalue
      · exact .inl (hdigits hvalue)
      · rcases List.mem_cons.mp hvalue with hsign | hdigit
        · exact .inr hsign
        · exact .inl (hdigits hdigit)
  | «variable» name =>
      cases hfound : context.bindings.get? name with
      | none => simp [value, hfound] at hvalue
      | some text =>
          rw [value, hfound, Option.getD_some] at hvalue
          exact .inr (.inl ⟨_, Bindings.mem_of_get?_eq_some hfound, hvalue⟩)
  | literal found =>
      obtain rfl := List.mem_singleton.mp hvalue
      exact .inl (mem_of_literal_mem_tokens htoken)

end Variable

/-! ### Definitions -/

namespace Alias.Definition

theorem mem_of_mem_value {text : Text} {character : Char}
    (hcharacter : character ∈ (value text).1 ∨ character ∈ (value text).2) : character ∈ text := by
  unfold value at hcharacter
  split at hcharacter
  · exact hcharacter.elim id id
  · next first rest =>
    split at hcharacter
    · refine List.mem_cons_of_mem first ?_
      rcases hcharacter with hvalue | hrest
      · exact (List.takeWhile_prefix (· != first)).subset hvalue
      · exact (List.dropWhile_suffix (· != first)).subset ((List.drop_suffix 1 _).subset hrest)
    · rcases hcharacter with hvalue | hrest
      · exact (List.takeWhile_prefix (!Text.isBlank ·)).subset hvalue
      · exact (List.dropWhile_suffix (!Text.isBlank ·)).subset hrest

theorem mem_of_mem_next {text : Text} {character : Char}
    (hcharacter : (∃ name value, (next text).1 = .define name value ∧ character ∈ value) ∨
      character ∈ (next text).2) : character ∈ text := by
  have hbehind : ∀ found ∈ text.dropWhile (!endsName ·), found ∈ text :=
    (List.dropWhile_suffix _).subset
  unfold next at hcharacter
  simp only at hcharacter
  split at hcharacter
  · next rest hrest =>
    rw [hrest] at hbehind
    refine hbehind _ (List.mem_cons_of_mem _ (mem_of_mem_value ?_))
    rcases hcharacter with ⟨name, found, hdefine, hfound⟩ | hafter
    · cases hdefine
      exact .inl hfound
    · exact .inr hafter
  · rcases hcharacter with ⟨name, found, hdefine, -⟩ | hafter
    · cases hdefine
    · exact hbehind _ hafter

theorem mem_of_mem_parse {text name value : Text} (hdefine : .define name value ∈ parse text)
    {character : Char} (hcharacter : character ∈ value) : character ∈ text := by
  induction text using parse.induct with
  | case1 => simp [parse] at hdefine
  | case2 first rest hblank ih =>
      rw [parse, if_pos hblank] at hdefine
      exact List.mem_cons_of_mem first (ih hdefine)
  | case3 first rest hblank ih =>
      rw [parse, if_neg hblank] at hdefine
      rcases List.mem_cons.mp hdefine with hfirst | hrest
      · exact mem_of_mem_next (.inl ⟨name, value, hfirst.symm, hcharacter⟩)
      · exact mem_of_mem_next (.inr (ih hrest))

end Alias.Definition

end CommandShell
