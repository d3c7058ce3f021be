import CommandShell.Proofs.Alias.Listing
import CommandShell.Proofs.Builtin.Requests
import CommandShell.Proofs.Line.Replaying
import CommandShell.Proofs.Shell.Commands
import CommandShell.Proofs.Shell.Composition
import CommandShell.Proofs.Text.Spacing
import Mathlib.Tactic.FinCases

/-!
# An alias defined by a line

Quotes mean nothing to a line: it is cut at comments and at operators, its words are taken apart
and expanded, and only `alias` puts them together again and looks for quotes. A quoted value comes
through all of that when it holds nothing that one of these stages looks for; all that is lost is
which blanks stood between its words, and how many.
-/

namespace CommandShell

/-- An event of which the user sees nothing. -/
def Event.IsSilent : Event → Prop
  | .dispatched _ | .noted _ => True
  | _ => False

theorem Event.isSilent_of_isNotice {event : Event} (hnotice : Shell.IsNotice event) :
    event.IsSilent := by
  cases event <;> trivial

namespace Alias

/-- A name in which no stage of a line finds anything to do. -/
structure Definable (name : Text) : Prop where
  filled : name ≠ []
  blank : ∀ character ∈ name, Text.isBlank character = false
  special : ∀ character ∈ name, character ∉ ['=', '$', ';', '&', '|', '#']

/-- A value that comes through a line in single quotes. -/
structure Quotable (value : Text) : Prop where
  quote : '\'' ∉ value
  reference : '$' ∉ value
  operator : Chain.Plain value
  comment : ∀ front back, value = front ++ '#' :: back →
    ∀ last ∈ front.getLast?, Text.isBlank last = false

/-- The line that defines an alias in the form in which it is shown. -/
def definingLine (name value : Text) : Text :=
  Builtin.alias.name ++ ' ' :: display name value

/-- What stands in front of the value in the line. -/
def opening (name : Text) : Text :=
  Builtin.alias.name ++ ' ' :: (name ++ "='".toList)

variable {name value : Text}

theorem definingLine_eq (name value : Text) :
    definingLine name value = opening name ++ (value ++ ['\'']) := by
  simp [definingLine, display, opening]

theorem Definable.not_mem_opening (hname : Definable name) {character : Char}
    (hspecial : character ∈ ['$', ';', '&', '|', '#']) : character ∉ opening name := by
  obtain ⟨hcommand, hblank, hsign⟩ :
      character ∉ Builtin.alias.name ∧ character ≠ ' ' ∧ character ∉ "='".toList := by
    fin_cases hspecial <;> decide
  have hwithin : character ∉ name := fun hmember =>
    hname.special character hmember (List.mem_cons_of_mem _ hspecial)
  simp only [opening, List.mem_append, List.mem_cons, not_or]
  exact ⟨hcommand, hblank, hwithin, hsign⟩

theorem Shows.of_quotable (hname : Definable name) (hvalue : Quotable value) :
    Shows name (Text.squeezed value) where
  filled := hname.filled
  equals := fun hmember => hname.special '=' hmember (by decide)
  blank := hname.blank
  quote := fun hmember =>
    (Text.mem_of_mem_squeezed hmember).elim hvalue.quote (by decide)

/-! ### The stages of the line -/

/-- No `#` within a value opens a comment behind a quote. -/
theorem commentless_iff {value : Text} :
    Line.stripCommentFrom false value = value ↔ ∀ front back, value = front ++ '#' :: back →
      ∀ last ∈ front.getLast?, Text.isBlank last = false := by
  have hends (front : Text) : Line.endsBlank false front = false ↔
      ∀ last ∈ front.getLast?, Text.isBlank last = false := by
    rw [Line.endsBlank]
    cases front.getLast? <;> simp
  rw [Line.stripCommentFrom_eq_self_iff]
  simp only [hends]

theorem stripComment_definingLine (hname : Definable name) (hvalue : Quotable value) :
    Line.stripComment (definingLine name value) = definingLine name value := by
  have hopening : Line.stripCommentFrom true (opening name) = opening name :=
    Line.stripCommentFrom_of_not_mem true (hname.not_mem_opening (by decide))
  -- The quote in front of the value is no blank, so that a `#` may open the value.
  have hquote : Line.endsBlank true (opening name) = false := by
    rw [Line.endsBlank, opening, ← List.cons_append, ← List.append_assoc, List.getLast?_append]
    rfl
  have hwithin : Line.stripCommentFrom false value = value :=
    commentless_iff.mpr hvalue.comment
  have hclosing : '#' ∉ ['\''] := by decide
  rw [definingLine_eq]
  calc Line.stripComment (opening name ++ (value ++ ['\'']))
      = opening name ++ Line.stripCommentFrom false (value ++ ['\'']) := by
        rw [Line.stripComment, Line.stripCommentFrom_append hopening, hquote]
    _ = opening name ++ (value ++ ['\'']) := by
        rw [Line.stripCommentFrom_append hwithin, Line.stripCommentFrom_of_not_mem _ hclosing]

theorem accepted?_definingLine (hname : Definable name) (hvalue : Quotable value) :
    Line.accepted? (definingLine name value) = some (definingLine name value) := by
  have hne : definingLine name value ≠ [] := by simp [definingLine]
  have hlast : (definingLine name value).getLast hne = '\'' := by simp [definingLine, display]
  have hspace : ¬ Text.isSpace ((definingLine name value).getLast hne) = true := by
    rw [hlast]
    decide
  exact Line.accepted?_eq_self_iff.mpr ⟨⟨hne, hspace⟩, stripComment_definingLine hname hvalue⟩

theorem plain_definingLine (hname : Definable name) (hvalue : Quotable value) :
    Chain.Plain (definingLine name value) := by
  have hclosed : Chain.Plain (value ++ ['\'']) :=
    hvalue.operator.append (by decide) trivial
  have hspecial (operator : Operator) : operator.spelling ⊆ ['$', ';', '&', '|', '#'] := by
    cases operator <;> decide
  rw [definingLine_eq]
  exact hclosed.append_front fun operator character hcharacter =>
    hname.not_mem_opening (hspecial operator hcharacter)

theorem dollar_not_mem_definingLine (hname : Definable name) (hvalue : Quotable value) :
    '$' ∉ definingLine name value := by
  rw [definingLine_eq, List.mem_append, List.mem_append]
  rintro (hopening | hvalue' | hclosing)
  · exact hname.not_mem_opening (by decide) hopening
  · exact hvalue.reference hvalue'
  · exact absurd hclosing (by decide)

theorem firstWord_definingLine (name value : Text) :
    (firstWord (definingLine name value)).1 = "alias".toList := by
  rw [definingLine, firstWord_append (by decide) (by simp [Text.isBlank])]
  rfl

theorem words_definingLine (name value : Text) :
    Text.words (definingLine name value) =
      "alias".toList :: Text.words (display name value) := by
  rw [definingLine, Text.words_append_blank rfl]
  rfl

/-- What stands in front of the value belongs to one word. -/
theorem Definable.sign (hname : Definable name) :
    ∀ character ∈ name ++ "='".toList, Text.isBlank character = false := by
  have hsign : ∀ character ∈ "='".toList, Text.isBlank character = false := by
    simp [Text.isBlank]
  exact List.forall_mem_append.mpr ⟨hname.blank, hsign⟩

theorem display_eq (name value : Text) :
    display name value = (name ++ "='".toList) ++ (value ++ ['\'']) := by
  simp [display]

theorem joined_words_display (hname : Definable name) (value : Text) :
    Text.joined " " (Text.words (display name value)) = display name (Text.squeezed value) := by
  rw [display_eq, display_eq, Text.joined_words (by simp) hname.sign value rfl]

theorem exists_words_display (hname : Definable name) (value : Text) :
    ∃ first others, Text.words (display name value) = first :: others ∧ '=' ∈ first := by
  obtain ⟨first, others, hpieces⟩ :=
    List.exists_cons_of_ne_nil (Text.pieces_ne_nil Text.isBlank (value ++ ['\'']))
  rw [display_eq, Text.words_append_of_forall_not (by simp) hname.sign hpieces]
  exact ⟨_, _, rfl, by simp⟩

end Alias

/-! ### What the command does -/

namespace Builtin

variable {World : Type} {name value : Text}

theorem runAlias_of_display (session : Session World) (hshows : Alias.Shows name value)
    {definitions : List Text} (hne : definitions ≠ [])
    (hjoined : Text.joined " " definitions = Alias.display name value) :
    runAlias session definitions =
      ({ session with aliases := session.aliases.put name value }, .ok 0) := by
  have hparse := Alias.Definition.parse_display hshows []
  rw [List.append_nil, Alias.Definition.parse] at hparse
  have hdefine : define session [] [.define name value] =
      ({ session with aliases := session.aliases.put name value }, .ok []) :=
    @define_of_names World session [] [(name, value)]
      (List.forall_mem_singleton.mpr hshows.filled)
  rw [runAlias, if_neg (by simpa using hne), hjoined, hparse, hdefine]

end Builtin

namespace Session

variable {World : Type} (platform : Platform World)

theorem runWords_alias (session : Session World) {name value : Text}
    (hshows : Alias.Shows name value) {definitions : List Text} (hne : definitions ≠ [])
    (hfree : definitions.head? ≠ some "--help".toList)
    (hjoined : Text.joined " " definitions = Alias.display name value) :
    ∃ output, session.output.Grows Event.IsSilent output ∧
      session.runWords platform ("alias".toList :: definitions) =
        { session with aliases := session.aliases.put name value, status := 0, output } := by
  have hfind : Builtin.find? "alias".toList = some .alias := by decide
  have htakes (taken : Nat) : (Builtin.alias.signature.nextOperand? taken).isSome := by
    cases taken <;> rfl
  have hrequest : Builtin.alias.request definitions = .ok (.alias definitions) :=
    Builtin.request_of_takes htakes (by decide) hfree
  have hdispatch (session : Session World) :
      session.dispatch platform "alias".toList definitions =
        ({ session with aliases := session.aliases.put name value }, .ok 0) := by
    rw [dispatch, hfind]
    simp only [Builtin.run, hrequest]
    exact Builtin.runAlias_of_display session hshows hne hjoined
  have hshown : session.output.Grows Event.IsSilent
      (session.output.emit (.dispatched ("alias".toList :: definitions))) :=
    Output.grows_emit session.output trivial
  rw [runWords, hdispatch]
  obtain ⟨output, hnoted, -, hsettled⟩ := exists_settled_eq
    { session.emit (.dispatched ("alias".toList :: definitions)) with
      aliases := session.aliases.put name value } "alias"
  exact ⟨output, hshown.trans (hnoted.mono fun _ => Event.isSilent_of_isNotice), hsettled⟩

/-- The line falls apart into words, of which `alias` makes the definition again. -/
theorem exists_runSegment_eq (session : Session World) {name value : Text}
    (hname : Alias.Definable name) (hvalue : Alias.Quotable value) :
    ∃ output, session.output.Grows Event.IsSilent output ∧
      session.runSegment platform { text := Alias.definingLine name value, operator := .start } =
        { session with
          aliases := session.aliases.put name (Text.squeezed value), status := 0, output } := by
  obtain ⟨first, others, hwords, hequals⟩ := Alias.exists_words_display hname value
  have hfree : (Text.words (Alias.display name value)).head? ≠ some "--help".toList := by
    rw [hwords]
    rintro ⟨⟩
    exact absurd hequals (by decide)
  obtain ⟨output, hshown, hafter⟩ := runWords_alias platform session
    (Alias.Shows.of_quotable hname hvalue) (by simp [hwords]) hfree
    (Alias.joined_words_display hname value)
  refine ⟨output, hshown, ?_⟩
  calc session.runSegment platform { text := Alias.definingLine name value, operator := .start }
      = session.runWords platform (Text.words (Alias.definingLine name value)) := by
        rw [runSegment, session.expandedWords_of_not_mem
          (Alias.dollar_not_mem_definingLine hname hvalue)]
    _ = session.runWords platform ("alias".toList :: Text.words (Alias.display name value)) := by
        rw [Alias.words_definingLine]
    _ = _ := hafter

/-- What the definition of an alias does to a session, and what it leaves. -/
structure Defines (name value : Text) (before after : Session World) : Prop where
  status : after.status = 0
  shows : before.output.Grows Event.IsSilent after.output
  environment : after.environment = before.environment
  names : after.aliases.names =
    before.aliases.names ++ [name].filter (!before.aliases.names.contains ·)
  others : ∀ other, other ≠ name → after.aliases.get? other = before.aliases.get? other
  value : ∃ kept, after.aliases.get? name = some kept ∧ Text.words kept = Text.words value ∧
    (Text.SingleSpaced value → kept = value)

end Session

namespace Shell

variable {World : Type} (platform : Platform World)

/-- A line that gives a value in quotes defines the alias. The value keeps its words, and is kept
as it is where they stand one space apart. Nothing else changes but for the record of the line. -/
theorem executeLine_defines (shell : Shell World) {name value : Text}
    (hname : Alias.Definable name) (hvalue : Alias.Quotable value)
    (hleaving : shell.session.leaving = none)
    (halias : shell.session.aliases.get? "alias" = none) (recorded : Bool) :
    let line := Alias.definingLine name value
    let start := if recorded then remember platform shell.session line else shell.session
    let run := shell.executeLine platform line recorded
    run.2 = none ∧ Session.Defines name value shell.session run.1.session ∧
      run.1.session.world = start.world ∧ run.1.session.history = start.history := by
  intro line start run
  have hexecute : run =
      ({ session := start.runSegment platform { text := line, operator := .start } },
        (start.runSegment platform { text := line, operator := .start }).leaving) := by
    refine executeLine_of_plain platform shell (Alias.accepted?_definingLine hname hvalue)
      (Alias.plain_definingLine hname hvalue) ?_ recorded
    rwa [Alias.firstWord_definingLine]
  obtain ⟨world, history, noted, hnotice, hstart⟩ :
      ∃ world history noted, shell.session.output.Grows IsNotice noted ∧
        start = { shell.session with world, history, output := noted } :=
    exists_start_eq platform shell.session line recorded
  obtain ⟨output, hshown, hafter⟩ := start.exists_runSegment_eq platform hname hvalue
  rw [hexecute, hafter, hstart]
  rw [hstart] at hshown
  refine ⟨hleaving, ⟨rfl, ?_, rfl, ?_, ?_, ?_⟩, rfl, rfl⟩
  · exact (hnotice.mono fun _ => Event.isSilent_of_isNotice).trans hshown
  · exact Bindings.names_put shell.session.aliases name _
  · intro other hother
    exact Bindings.get?_put_of_ne shell.session.aliases _ hother
  · exact ⟨_, Bindings.get?_put_self shell.session.aliases name _, Text.words_squeezed value,
      Text.squeezed_of_singleSpaced⟩

/-- The value opens with a blank and holds other quotes, halves of operators and a `#` in a word. -/
theorem executeLine_defines_again :
    let value := " echo  -n\t\"a=b\" --c#d | & ".toList
    let before := onBareHost [("ll", "ls"), ("x", "cd")]
    let line := Alias.definingLine "ll" value
    let run := before.executeLine (Host.platform 2) line true
    Alias.Definable "ll" ∧ Alias.Quotable value ∧ before.session.leaving = none ∧
      before.session.aliases.get? "alias" = none ∧ run.2 = none ∧
        Session.Defines "ll" value before.session run.1.session := by
  intro value before line run
  have hname : Alias.Definable "ll".toList := ⟨by decide, by simp [Text.isBlank], by simp⟩
  have hvalue : Alias.Quotable value :=
    ⟨by decide, by decide, by decide, Alias.commentless_iff.mp (by decide)⟩
  obtain ⟨hstays, hdefines, -⟩ :=
    executeLine_defines (Host.platform 2) before hname hvalue rfl (by decide) true
  exact ⟨hname, hvalue, rfl, by decide, hstays, hdefines⟩

end Shell

end CommandShell
