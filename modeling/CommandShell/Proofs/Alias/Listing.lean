import CommandShell.Builtin.Run
import CommandShell.Proofs.Bindings.Order
import CommandShell.Proofs.Text.Words

/-!
# Aliases read back from their listing

A listing shows each alias as a definition. A definition ends with its closing quote, whatever
stands in front of that, so that a line of them is read as the definitions that were shown, and
carrying them out makes the aliases again.
-/

namespace CommandShell

namespace Alias

/-- What a listing shows of an alias can be told apart again: its name is one that a definition can
give, and its value holds no quote that would end it. -/
structure Shows (name value : Text) : Prop where
  filled : name ≠ []
  equals : '=' ∉ name
  blank : ∀ character ∈ name, Text.isBlank character = false
  quote : '\'' ∉ value

theorem shows_iff {name value : Text} :
    Shows name value ↔
      name ≠ [] ∧ '=' ∉ name ∧ name.all (!Text.isBlank ·) = true ∧ '\'' ∉ value := by
  rw [List.all_eq_true]
  constructor
  · rintro ⟨hfilled, hequals, hblank, hquote⟩
    exact ⟨hfilled, hequals, fun character hmember => by simp [hblank character hmember], hquote⟩
  · rintro ⟨hfilled, hequals, hblank, hquote⟩
    refine ⟨hfilled, hequals, fun character hmember => ?_, hquote⟩
    simpa using hblank character hmember

instance (name value : Text) : Decidable (Shows name value) := decidable_of_iff _ shows_iff.symm

/-- Characters that can all stand in one name. -/
def Definition.Named (name : Text) : Prop :=
  ∀ character ∈ name, endsName character = false

theorem Shows.named {name value : Text} (hshows : Shows name value) : Definition.Named name := by
  intro character hcharacter
  have hequals : (character == '=') = false :=
    beq_false_of_ne fun hsame => hshows.equals (hsame ▸ hcharacter)
  rw [Definition.endsName, hequals, hshows.blank character hcharacter]
  rfl

namespace Definition

variable {name value : Text}

theorem value_quoted {quote : Char} (hquote : isQuote quote = true) (hvalue : quote ∉ value)
    (rest : Text) : Definition.value (quote :: (value ++ quote :: rest)) = (value, rest) := by
  have hkeeps : ∀ character ∈ value, (character != quote) = true := fun character hcharacter =>
    bne_iff_ne.mpr fun hsame => hvalue (hsame ▸ hcharacter)
  have hstops : ∀ character ∈ (quote :: rest).head?, (character != quote) = false := by simp
  obtain ⟨htake, hdrop⟩ := span_of_forall hkeeps hstops
  rw [Definition.value, if_pos hquote, htake, hdrop]
  rfl

theorem span_named (hname : Named name) {rest : Text}
    (hrest : ∀ character ∈ rest.head?, endsName character = true) :
    (name ++ rest).takeWhile (!endsName ·) = name ∧
      (name ++ rest).dropWhile (!endsName ·) = rest :=
  span_of_forall (fun character hcharacter => by rw [hname character hcharacter]; rfl)
    fun character hcharacter => by rw [hrest character hcharacter]; rfl

theorem next_define (hname : Named name) (rest : Text) :
    next (name ++ '=' :: rest) =
      (.define name (Definition.value rest).1, (Definition.value rest).2) := by
  have hstops : ∀ character ∈ ('=' :: rest).head?, endsName character = true := by
    rintro _ ⟨⟩
    rfl
  obtain ⟨htake, hdrop⟩ := span_named hname hstops
  rw [next, htake, hdrop]
  rfl

/-- A shown alias is read as what defines it, up to its closing quote. -/
theorem next_display (hshows : Shows name value) (rest : Text) :
    next (display name value ++ rest) = (.define name value, rest) := by
  have hdisplay : display name value ++ rest =
      name ++ '=' :: '\'' :: (value ++ '\'' :: rest) := by simp [display]
  rw [hdisplay, next_define hshows.named, value_quoted rfl hshows.quote]

theorem parse_blank {character : Char} (hblank : Text.isBlank character = true) (rest : Text) :
    parse (character :: rest) = parse rest := by
  rw [parse, if_pos hblank]

theorem parse_display (hshows : Shows name value) (rest : Text) :
    parse (display name value ++ rest) = .define name value :: parse rest := by
  have hnext := next_display hshows rest
  obtain ⟨first, others, rfl⟩ := List.exists_cons_of_ne_nil hshows.filled
  have hfirst : ¬ Text.isBlank first = true := by
    simp [hshows.blank first List.mem_cons_self]
  have hdisplay : display (first :: others) value ++ rest =
      first :: (others ++ ("='".toList ++ (value ++ ("'".toList ++ rest)))) := by
    simp [display]
  rw [hdisplay] at hnext ⊢
  rw [parse, if_neg hfirst, hnext]

/-- Definitions that are shown side by side are read one by one. -/
theorem parse_joined_display {entries : List (Text × Text)}
    (hentries : ∀ entry ∈ entries, Shows entry.1 entry.2) :
    parse (Text.joined " " (entries.map fun entry => display entry.1 entry.2)) =
      entries.map fun entry => .define entry.1 entry.2 := by
  induction entries with
  | nil => simp [Text.joined, parse]
  | cons entry rest ih =>
      obtain ⟨hentry, hrest⟩ := List.forall_mem_cons.mp hentries
      cases rest with
      | nil =>
          have hparse := parse_display hentry []
          rw [List.append_nil] at hparse
          rw [List.map_singleton, Text.joined_singleton, hparse]
          simp [parse]
      | cons second others =>
          rw [List.map_cons, List.map_cons, Text.joined_cons_cons, List.append_assoc,
            parse_display hentry]
          have hblank : Text.isBlank ' ' = true := rfl
          exact congrArg _ ((parse_blank hblank _).trans (ih hrest))

end Definition

end Alias

namespace Builtin

variable {World : Type}

/-- Definitions of names bind them one after the other. -/
theorem define_of_names (session : Session World) (missing : List Text)
    {entries : List (Text × Text)} (hentries : ∀ entry ∈ entries, entry.1 ≠ []) :
    define session missing (entries.map fun entry => .define entry.1 entry.2) =
      ({ session with
          aliases := entries.foldl (fun aliases entry => aliases.put entry.1 entry.2)
            session.aliases }, .ok missing) := by
  induction entries generalizing session with
  | nil => rfl
  | cons entry rest ih =>
      obtain ⟨hentry, hrest⟩ := List.forall_mem_cons.mp hentries
      rw [List.map_cons, define, ih _ hrest]
      · rfl
      · exact hentry

end Builtin

namespace Alias

/-- A listing is read as the definition of each alias, in order. Carried out where there are no
aliases they make those that were listed; where the listed ones are, they change nothing. -/
theorem parse_displayAll {World : Type} (pairs : List (Text × Text))
    (hshows : ∀ entry ∈ (Bindings.ofList pairs).toList, Shows entry.1 entry.2) :
    let aliases := Bindings.ofList pairs
    let definitions := Definition.parse (Text.joined " " (displayAll aliases))
    definitions = aliases.toList.map (fun entry => .define entry.1 entry.2) ∧
      ∀ session : Session World,
        (session.aliases = Bindings.empty →
          Builtin.define session [] definitions = ({ session with aliases }, .ok [])) ∧
        (session.aliases = aliases →
          Builtin.define session [] definitions = (session, .ok [])) := by
  intro aliases definitions
  have hnodup : aliases.names.Nodup := Bindings.nodup_names_ofList pairs
  have hparse : definitions = aliases.toList.map fun entry => .define entry.1 entry.2 :=
    Definition.parse_joined_display hshows
  have hdefine := fun session : Session World =>
    Builtin.define_of_names session [] fun entry hentry => (hshows entry hentry).filled
  refine ⟨hparse, fun session => ⟨fun hempty => ?_, fun hsame => ?_⟩⟩
  · rw [hparse, hdefine, hempty]
    exact congrArg (fun aliases => ({ session with aliases }, Except.ok []))
      (Bindings.ofList_toList hnodup)
  · rw [hparse, hdefine, hsame, Bindings.foldl_put_of_subset hnodup fun _ hentry => hentry, ← hsame]

/-- The values hold the other quote, operators, and what opens a comment or a reference. -/
theorem parse_displayAll_operators :
    let pairs : List (Text × Text) :=
      [("x", "1"), ("say", "echo \"$A\" && b=1 # c"), ("ll", "ls -la;"), ("x", "")]
    let aliases := Bindings.ofList pairs
    let before : Session Unit :=
      Session.new "hsh" 1 (Environment.ofPairs [] "/") (History.new none 16 .onExit) ()
    (∀ entry ∈ aliases.toList, Shows entry.1 entry.2) ∧ before.aliases = Bindings.empty ∧
      Builtin.define before [] (Definition.parse (Text.joined " " (displayAll aliases))) =
        ({ before with aliases }, .ok []) := by
  intro pairs aliases before
  have hshows : ∀ entry ∈ aliases.toList, Shows entry.1 entry.2 := by decide
  obtain ⟨-, hdefine⟩ := parse_displayAll pairs hshows
  exact ⟨hshows, rfl, (hdefine before).1 rfl⟩

end Alias

end CommandShell
