import CommandShell.Proofs.Text.Words
import CommandShell.Session.Dispatch
import Mathlib.Data.List.Forall2
import Mathlib.Logic.ExistsUnique

/-!
# The tokens of a word

There is one way only to cut a word into tokens each of which fits in front of what follows it: a
name takes in all that could continue it, and a `$` stands for itself only where no reference
starts. Every token is then replaced by its own value. So a value is put between what the text in
front of it and the text behind it come to by themselves, whatever characters it holds.
-/

namespace CommandShell

/-! ### Decimal values -/

namespace Decimal

theorem ofNat_eq_toString (value : Nat) : ofNat value = (toString value).toList := by
  show ofNat value = (String.ofList (Nat.toDigits 10 value)).toList
  rw [String.toList_ofList, ofNat]

theorem ofInt_eq_toString (value : Int) : ofInt value = (toString value).toList := by
  cases value with
  | ofNat magnitude => exact ofNat_eq_toString magnitude
  | negSucc magnitude =>
      show '-' :: ofNat (magnitude + 1) = ("-" ++ toString (magnitude + 1)).toList
      rw [String.toList_append, ← ofNat_eq_toString]
      rfl

end Decimal

namespace Variable

/-! ### Reading a word from the left -/

/-- A name is a letter or an underscore, and then letters, underscores and digits. -/
def IsName (name : Text) : Prop :=
  ∃ first rest, name = first :: rest ∧ startsName first = true ∧
    ∀ character ∈ rest, continuesName character = true

/-- A `$` in front of the text starts a reference. -/
def OpensReference (rest : Text) : Prop :=
  ∃ next ∈ rest.head?, next = '$' ∨ next = '?' ∨ startsName next = true

/-- Whether a token is what is read when its spelling stands in front of the text. -/
def Token.Fits : Token → Text → Prop
  | .process, _ => True
  | .status, _ => True
  | .variable name, rest => IsName name ∧ ∀ next ∈ rest.head?, continuesName next = false
  | .literal character, rest => character = '$' → ¬ OpensReference rest

def spell (found : List Token) : Text :=
  found.flatMap Token.spelling

/-- A word is these tokens, read from the left. -/
inductive Factors : Text → List Token → Prop
  | nil : Factors [] []
  | cons (token : Token) {rest : Text} {later : List Token} (hfits : token.Fits rest)
      (hrest : Factors rest later) : Factors (token.spelling ++ rest) (token :: later)

/-! ### One way to read a word -/

theorem ne_of_startsName {character : Char} (hstarts : startsName character = true) :
    character ≠ '$' ∧ character ≠ '?' := by
  constructor
  all_goals
    rintro rfl
    exact absurd hstarts (by decide)

theorem tokens_cons_of_not_opens {character : Char} {rest : Text}
    (hliteral : character = '$' → ¬ OpensReference rest) :
    tokens (character :: rest) = .literal character :: tokens rest := by
  by_cases hdollar : character = '$'
  · subst hdollar
    have hopens := hliteral rfl
    cases rest with
    | nil => simp [tokens]
    | cons next others =>
        have hnext : ¬ (next = '$' ∨ next = '?' ∨ startsName next = true) := fun hnext =>
          hopens ⟨next, rfl, hnext⟩
        simp only [not_or] at hnext
        obtain ⟨hprocess, hstatus, hstarts⟩ := hnext
        rw [tokens, if_neg hstarts]
        · exact hprocess
        · exact hstatus
  · rw [tokens]
    all_goals
      intros
      exact absurd ‹character = '$'› hdollar

theorem tokens_spelling_append {token : Token} {rest : Text} (hfits : token.Fits rest) :
    tokens (token.spelling ++ rest) = token :: tokens rest := by
  cases token with
  | process =>
      show tokens ('$' :: '$' :: rest) = _
      rw [tokens]
  | status =>
      show tokens ('$' :: '?' :: rest) = _
      rw [tokens]
  | «variable» name =>
      obtain ⟨⟨first, others, rfl, hstarts, hothers⟩, hstops⟩ := hfits
      obtain ⟨hprocess, hstatus⟩ := ne_of_startsName hstarts
      obtain ⟨htake, hdrop⟩ := Alias.span_append_of_stops others hstops
      rw [List.takeWhile_eq_self_iff.mpr hothers] at htake
      rw [List.dropWhile_eq_nil_iff.mpr hothers, List.nil_append] at hdrop
      show tokens ('$' :: first :: (others ++ rest)) = _
      rw [tokens, if_pos hstarts, htake, hdrop]
      · exact hprocess
      · exact hstatus
  | literal character => exact tokens_cons_of_not_opens hfits

theorem factors_tokens (word : Text) : Factors word (tokens word) := by
  induction word using tokens.induct with
  | case1 =>
      rw [tokens]
      exact .nil
  | case2 rest ih =>
      rw [tokens]
      exact .cons .process trivial ih
  | case3 rest ih =>
      rw [tokens]
      exact .cons .status trivial ih
  | case4 first rest hprocess hstatus hstarts ih =>
      have hname : IsName (first :: rest.takeWhile continuesName) :=
        ⟨first, _, rfl, hstarts, fun _ => List.mem_takeWhile_imp⟩
      have hstops : ∀ next ∈ (rest.dropWhile continuesName).head?, continuesName next = false :=
        Alias.stops_dropWhile continuesName rest
      have hfactors := Factors.cons (.variable _) ⟨hname, hstops⟩ ih
      rw [Token.spelling, List.cons_append, List.cons_append,
        List.takeWhile_append_dropWhile] at hfactors
      rw [tokens, if_pos hstarts]
      · exact hfactors
      · exact hprocess
      · exact hstatus
  | case5 first rest hprocess hstatus hstarts ih =>
      have hopens : ¬ OpensReference (first :: rest) := by
        rintro ⟨next, hnext, hreference⟩
        obtain rfl := Option.some.inj hnext
        exact hreference.elim hprocess (·.elim hstatus hstarts)
      have hliteral : Token.Fits (.literal '$') (first :: rest) := fun _ => hopens
      rw [tokens_cons_of_not_opens hliteral]
      exact .cons (.literal _) hliteral ih
  | case6 first rest hprocess hstatus hname ih =>
      have hliteral : Token.Fits (.literal first) rest := by
        rintro hdollar ⟨next, hnext, -⟩
        obtain ⟨others, rfl⟩ := List.head?_eq_some_iff.mp hnext
        exact hname next others hdollar rfl
      rw [tokens_cons_of_not_opens hliteral]
      exact .cons (.literal _) hliteral ih

theorem Factors.eq_tokens {word : Text} {found : List Token} (hfactors : Factors word found) :
    found = tokens word := by
  induction hfactors with
  | nil => rw [tokens]
  | cons token hfits _ ih => rw [tokens_spelling_append hfits, ih]

theorem Factors.spell_eq {word : Text} {found : List Token} (hfactors : Factors word found) :
    spell found = word := by
  induction hfactors with
  | nil => rfl
  | cons _ _ _ ih => rw [spell, List.flatMap_cons, ← spell, ih]

/-! ### Words and their values -/

theorem Token.Fits.of_append {token : Token} {front back : Text}
    (hfits : token.Fits (front ++ back)) : token.Fits front := by
  have hhead : ∀ next ∈ front.head?, next ∈ (front ++ back).head? := by
    intro next hnext
    obtain ⟨others, rfl⟩ := List.head?_eq_some_iff.mp hnext
    rfl
  cases token with
  | process => trivial
  | status => trivial
  | «variable» name => exact ⟨hfits.1, fun next hnext => hfits.2 next (hhead next hnext)⟩
  | literal character =>
      rintro hdollar ⟨next, hnext, hreference⟩
      exact hfits hdollar ⟨next, hhead next hnext, hreference⟩

/-- Between two of its tokens a word falls into two words. -/
theorem Factors.of_append {word : Text} {front back : List Token}
    (hfactors : Factors word (front ++ back)) :
    Factors (spell front) front ∧ Factors (spell back) back := by
  induction front generalizing word with
  | nil =>
      have hspell := hfactors.spell_eq
      rw [List.nil_append] at hfactors hspell
      exact ⟨.nil, hspell.symm ▸ hfactors⟩
  | cons token later ih =>
      rw [List.cons_append] at hfactors
      cases hfactors with
      | cons _ hfits hrest =>
          obtain ⟨hfront, hback⟩ := ih hrest
          rw [← hrest.spell_eq, spell, List.flatMap_append] at hfits
          exact ⟨.cons token hfits.of_append hfront, hback⟩

theorem factors_of_not_mem {word : Text} (hnone : '$' ∉ word) :
    Factors word (word.map .literal) := by
  induction word with
  | nil => exact .nil
  | cons character rest ih =>
      obtain ⟨hfirst, hrest⟩ := not_or.mp (mt List.mem_cons.mpr hnone)
      exact .cons (.literal character) (fun hdollar => absurd hdollar.symm hfirst)
        (ih hrest)

namespace Context

variable (context : Context) {word : Text}

theorem expand_eq_flatMap {found : List Token} (hfactors : Factors word found) :
    context.expand word = found.flatMap context.value := by
  rw [expand, ← hfactors.eq_tokens]

theorem expand_of_append {front back : List Token} (hfactors : Factors word (front ++ back)) :
    context.expand word = context.expand (spell front) ++ context.expand (spell back) := by
  obtain ⟨hfront, hback⟩ := hfactors.of_append
  rw [context.expand_eq_flatMap hfactors, context.expand_eq_flatMap hfront,
    context.expand_eq_flatMap hback, List.flatMap_append]

/-- The value of a token stands between what the texts around the token come to without it. -/
theorem expand_of_append_cons {front back : List Token} {token : Token}
    (hfactors : Factors word (front ++ token :: back)) :
    context.expand word =
      context.expand (spell front) ++ (context.value token ++ context.expand (spell back)) := by
  obtain ⟨-, hlater⟩ := hfactors.of_append
  have hsplit : Factors (spell (token :: back)) ([token] ++ back) := hlater
  obtain ⟨-, hback⟩ := hsplit.of_append
  rw [context.expand_of_append hfactors, context.expand_eq_flatMap hlater, List.flatMap_cons,
    ← context.expand_eq_flatMap hback]

theorem expand_of_not_mem (hnone : '$' ∉ word) : context.expand word = word := by
  rw [context.expand_eq_flatMap (factors_of_not_mem hnone), List.flatMap_map]
  exact List.flatMap_singleton' word

/-- A word is read in one way, in a single pass from the left, and becomes the values of its tokens
one behind the other. No value is read again, whatever it holds, and of several words each becomes
one word in its place. -/
theorem expand_of_factors (word : Text) :
    (∃! found, Factors word found) ∧
      (∀ found, Factors word found →
        spell found = word ∧ context.expand word = found.flatMap context.value ∧
          ∀ front token back, found = front ++ token :: back →
            context.expand word =
              context.expand (spell front) ++
                (context.value token ++ context.expand (spell back))) ∧
      (context.value .process = (toString context.processId).toList ∧
        context.value .status = (toString context.status).toList ∧
        (∀ name, context.value (.variable name) = (context.bindings.get? name).getD []) ∧
        ∀ character, context.value (.literal character) = [character]) ∧
      ('$' ∉ word → context.expand word = word) ∧
      ∀ {World : Type} (session : Session World) (text : Text),
        List.Forall₂
          (fun word expanded => ∀ found, Factors word found →
            expanded = found.flatMap session.references.value)
          (Text.words text) (session.expandedWords text) := by
  refine ⟨⟨tokens word, factors_tokens word, fun _ => Factors.eq_tokens⟩, ?_, ?_,
    context.expand_of_not_mem, ?_⟩
  · intro found hfactors
    refine ⟨hfactors.spell_eq, context.expand_eq_flatMap hfactors, ?_⟩
    rintro front token back rfl
    exact context.expand_of_append_cons hfactors
  · exact ⟨Decimal.ofNat_eq_toString _, Decimal.ofInt_eq_toString _, fun _ => rfl, fun _ => rfl⟩
  · intro World session text
    rw [Session.expandedWords, List.forall₂_map_right_iff]
    exact List.forall₂_same.mpr fun word _ found => session.references.expand_eq_flatMap

/-- Values that hold references, blanks or nothing at all, and a `$` at each place where it starts
no reference. -/
theorem expand_of_factors_values :
    let context : Context :=
      { bindings := ⟨[("A".toList, "$B$".toList), ("B".toList, "x y".toList)]⟩
        status := -3
        processId := 7 }
    let word := "$$$A$B$?$C$-é$1$".toList
    let found : List Token :=
      [.process, .variable "A", .variable "B", .status, .variable "C", .literal '$', .literal '-',
        .literal 'é', .literal '$', .literal '1', .literal '$']
    Factors word found ∧ context.expand word = "7$B$x y-3$-é$1$".toList := by
  intro context word found
  have htokens : tokens word = found := by decide +kernel
  have hfactors : Factors word found := htokens ▸ factors_tokens word
  have hexpand := ((expand_of_factors context word).2.1 found hfactors).2.1
  exact ⟨hfactors, hexpand.trans (by decide +kernel)⟩

end Context

end Variable

end CommandShell
