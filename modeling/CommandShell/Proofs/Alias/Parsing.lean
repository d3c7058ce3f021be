import CommandShell.Proofs.Alias.Listing

/-!
# The arguments of `alias` are read one by one

An argument ends at a blank, at the quote that closes its value, or with the text. Nothing that
stands behind a blank reaches into the arguments in front of it, unless these end with a quote that
is still open.
-/

namespace CommandShell.Alias

/-! ### Open quotes -/

/-- What the next character of a text of arguments belongs to: a new argument, its name, the value
directly behind its equals sign, the rest of a bare value, or a quoted value. -/
inductive Place
  | fresh
  | name
  | value
  | bare
  | quoted (quote : Char)
  deriving DecidableEq

namespace Place

def next : Place → Char → Place
  | .fresh, character | .name, character =>
    if character = '=' then .value else if Text.isBlank character then .fresh else .name
  | .value, character =>
    if Definition.isQuote character then .quoted character
    else if Text.isBlank character then .fresh
    else .bare
  | .bare, character => if Text.isBlank character then .fresh else .bare
  | .quoted quote, character => if character = quote then .fresh else .quoted quote

def isQuoted : Place → Bool
  | .quoted _ => true
  | _ => false

/-- The text ends in a quoted value, when it is read from this place on. -/
def leavesOpen (place : Place) (text : Text) : Bool :=
  (text.foldl next place).isQuoted

end Place

/-- Every quote that opens a value is closed again. -/
def Closed (text : Text) : Prop :=
  Place.fresh.leavesOpen text = false

instance (text : Text) : Decidable (Closed text) :=
  inferInstanceAs (Decidable (Place.fresh.leavesOpen text = false))

/-! ### Arguments -/

namespace Definition

/-- The name that is defined or shown. -/
def subject : Definition → Text
  | .define name _ | .query name => name

/-- A name or a bare value ends in front of the text. -/
def Stops (text : Text) : Prop :=
  ∀ character ∈ text.head?, Text.isBlank character = true

/-- A text as the argument at its start, of which the end is seen, and what stands behind it. -/
inductive Reads : Text → Definition → Text → Prop
  | query {name rest : Text} (hfilled : name ≠ []) (hname : Named name) (hrest : Stops rest) :
      Reads (name ++ rest) (.query name) rest
  | bare {name value rest : Text} (hname : Named name)
      (hvalue : ∀ character ∈ value, Text.isBlank character = false)
      (hquote : ∀ character ∈ value.head?, isQuote character = false) (hrest : Stops rest) :
      Reads (name ++ '=' :: (value ++ rest)) (.define name value) rest
  | quoted {name value rest : Text} {quote : Char} (hname : Named name)
      (hquote : isQuote quote = true) (hvalue : quote ∉ value) :
      Reads (name ++ '=' :: quote :: (value ++ quote :: rest)) (.define name value) rest

/-- The arguments of a text. A quoted value that is not closed takes up all of the rest. -/
inductive Parses : Text → List Definition → Prop
  | done : Parses [] []
  | blank {character : Char} {rest : Text} {definitions : List Definition}
      (hblank : Text.isBlank character = true) (hrest : Parses rest definitions) :
      Parses (character :: rest) definitions
  | argument {text rest : Text} {definition : Definition} {definitions : List Definition}
      (hreads : Reads text definition rest) (hrest : Parses rest definitions) :
      Parses text (definition :: definitions)
  | unclosed {name value : Text} {quote : Char} (hname : Named name)
      (hquote : isQuote quote = true) (hvalue : quote ∉ value) :
      Parses (name ++ '=' :: quote :: value) [.define name value]

variable {text rest back name value : Text} {quote : Char} {definition : Definition}
  {definitions : List Definition}

theorem Stops.append (hrest : Stops rest) (hback : Stops back) : Stops (rest ++ back) := by
  cases rest with
  | nil => exact hback
  | cons first others => exact hrest

theorem endsName_of_isBlank {character : Char} (hblank : Text.isBlank character = true) :
    endsName character = true := by
  rw [endsName, hblank, Bool.or_true]

theorem isQuote_eq_false {character : Char} (hblank : Text.isBlank character = true) :
    isQuote character = false := by
  rcases Bool.or_eq_true_iff.mp hblank with hspace | htab
  · rw [eq_of_beq hspace]
    rfl
  · rw [eq_of_beq htab]
    rfl

/-! ### One argument -/

theorem next_query (hname : Named name) (hrest : Stops rest) :
    next (name ++ rest) = (.query name, rest) := by
  obtain ⟨htake, hdrop⟩ := span_named hname fun character hcharacter =>
    endsName_of_isBlank (hrest character hcharacter)
  rw [next, htake, hdrop]
  cases rest with
  | nil => rfl
  | cons first others =>
      have hfirst : first ≠ '=' := by
        rintro rfl
        exact absurd (hrest '=' rfl) (by decide)
      simp [hfirst]

theorem value_bare (hvalue : ∀ character ∈ value, Text.isBlank character = false)
    (hquote : ∀ character ∈ value.head?, isQuote character = false) (hrest : Stops rest) :
    Definition.value (value ++ rest) = (value, rest) := by
  have hkeeps : ∀ character ∈ value, (!Text.isBlank character) = true := by
    intro character hcharacter
    rw [hvalue character hcharacter]
    rfl
  have hstops : ∀ character ∈ rest.head?, (!Text.isBlank character) = false := by
    intro character hcharacter
    rw [hrest character hcharacter]
    rfl
  obtain ⟨htake, hdrop⟩ := span_of_forall hkeeps hstops
  have hopens : ∀ character ∈ (value ++ rest).head?, isQuote character = false := by
    cases value with
    | nil => exact fun character hcharacter => isQuote_eq_false (hrest character hcharacter)
    | cons first others => exact hquote
  unfold Definition.value
  split
  · next hempty =>
    obtain ⟨rfl, rfl⟩ := List.append_eq_nil_iff.mp hempty
    rfl
  · next first others htext =>
    rw [htext] at hopens htake hdrop
    rw [hopens first rfl, if_neg Bool.false_ne_true, htake, hdrop]

theorem value_unclosed (hquote : isQuote quote = true) (hvalue : quote ∉ value) :
    Definition.value (quote :: value) = (value, []) := by
  have hkeeps : ∀ character ∈ value, (character != quote) = true := fun character hcharacter =>
    bne_iff_ne.mpr fun hsame => hvalue (hsame ▸ hcharacter)
  rw [Definition.value, if_pos hquote, List.takeWhile_eq_self_iff.mpr hkeeps,
    List.dropWhile_eq_nil_iff.mpr hkeeps]
  rfl

theorem Named.not_stops (hname : Named name) (hfilled : name ≠ []) (rest : Text) :
    ¬ Stops (name ++ rest) := by
  intro hstops
  obtain ⟨first, others, rfl⟩ := List.exists_cons_of_ne_nil hfilled
  have hends := endsName_of_isBlank (hstops first rfl)
  rw [hname first List.mem_cons_self] at hends
  cases hends

theorem Named.not_stops_define (hname : Named name) (rest : Text) :
    ¬ Stops (name ++ '=' :: rest) := by
  by_cases hfilled : name = []
  · intro hstops
    rw [hfilled] at hstops
    exact absurd (hstops '=' rfl) (by decide)
  · exact hname.not_stops hfilled _

theorem Reads.not_stops (hreads : Reads text definition rest) : ¬ Stops text := by
  cases hreads with
  | query hfilled hname => exact hname.not_stops hfilled _
  | bare hname => exact hname.not_stops_define _
  | quoted hname => exact hname.not_stops_define _

theorem Reads.next_eq (hreads : Reads text definition rest) : next text = (definition, rest) := by
  cases hreads with
  | query _ hname hrest => exact next_query hname hrest
  | bare hname hvalue hquote hrest => rw [next_define hname, value_bare hvalue hquote hrest]
  | quoted hname hquote hvalue => rw [next_define hname, value_quoted hquote hvalue]

theorem Reads.length_lt (hreads : Reads text definition rest) : rest.length < text.length := by
  cases hreads with
  | query hfilled =>
      have hpositive := List.length_pos_iff.mpr hfilled
      rw [List.length_append]
      omega
  | bare => simp only [List.length_append, List.length_cons]; omega
  | quoted => simp only [List.length_append, List.length_cons]; omega

theorem Reads.append (hreads : Reads text definition rest) (hback : Stops back) :
    Reads (text ++ back) definition (rest ++ back) := by
  cases hreads with
  | query hfilled hname hrest =>
      rw [List.append_assoc]
      exact .query hfilled hname (hrest.append hback)
  | bare hname hvalue hquote hrest =>
      rw [List.append_assoc, List.cons_append, List.append_assoc]
      exact .bare hname hvalue hquote (hrest.append hback)
  | quoted hname hquote hvalue =>
      rw [List.append_assoc, List.cons_append, List.cons_append, List.append_assoc,
        List.cons_append]
      exact .quoted hname hquote hvalue

/-- What stands behind the equals sign of a name: a bare value, a quoted one, or a quote that is
not closed. -/
theorem exists_value (hname : Named name) (text : Text) :
    (∃ value rest, Reads (name ++ '=' :: text) (.define name value) rest) ∨
      ∃ quote value, isQuote quote = true ∧ quote ∉ value ∧ text = quote :: value := by
  by_cases hopens : ∃ quote ∈ text.head?, isQuote quote = true
  · obtain ⟨quote, hhead, hquote⟩ := hopens
    obtain ⟨others, rfl⟩ := List.head?_eq_some_iff.mp hhead
    obtain ⟨value, rest, hvalue, hstops, rfl⟩ := exists_span (· != quote) others
    have habsent : quote ∉ value := fun hmember => bne_iff_ne.mp (hvalue quote hmember) rfl
    cases rest with
    | nil => exact .inr ⟨quote, value, hquote, habsent, by rw [List.append_nil]⟩
    | cons closing rest =>
        obtain rfl : closing = quote := by simpa using hstops closing rfl
        exact .inl ⟨value, rest, .quoted hname hquote habsent⟩
  · obtain ⟨value, rest, hvalue, hstops, rfl⟩ := exists_span (!Text.isBlank ·) text
    refine .inl ⟨value, rest, .bare hname ?_ ?_ ?_⟩
    · intro character hcharacter
      simpa using hvalue character hcharacter
    · intro character hcharacter
      refine Bool.eq_false_iff.mpr fun hquote => hopens ⟨character, ?_, hquote⟩
      cases value with
      | nil => cases hcharacter
      | cons first others => exact hcharacter
    · intro character hcharacter
      simpa using hstops character hcharacter

/-- A text that starts with an argument shows where that ends, or is its value to the end. -/
theorem exists_reads (hstart : ¬ Stops text) :
    (∃ definition rest, Reads text definition rest) ∨
      ∃ name quote value, Named name ∧ isQuote quote = true ∧ quote ∉ value ∧
        text = name ++ '=' :: quote :: value := by
  obtain ⟨name, rest, hspan, hends, rfl⟩ := exists_span (!endsName ·) text
  have hname : Named name := fun character hcharacter => by simpa using hspan character hcharacter
  by_cases hequals : rest.head? = some '='
  · obtain ⟨after, rfl⟩ := List.head?_eq_some_iff.mp hequals
    rcases exists_value hname after with ⟨value, rest, hreads⟩ | ⟨quote, value, hquote, hvalue, rfl⟩
    · exact .inl ⟨_, rest, hreads⟩
    · exact .inr ⟨name, quote, value, hname, hquote, hvalue, rfl⟩
  · have hrest : Stops rest := by
      intro character hcharacter
      have hother : character ≠ '=' := by
        rintro rfl
        exact hequals hcharacter
      simpa [endsName, hother] using hends character hcharacter
    have hfilled : name ≠ [] := by
      rintro rfl
      exact hstart hrest
    exact .inl ⟨_, rest, .query hfilled hname hrest⟩

/-! ### All arguments -/

theorem parse_of_next_eq (hstart : ¬ Stops text) (hnext : next text = (definition, rest)) :
    parse text = definition :: parse rest := by
  cases text with
  | nil => exact absurd nofun hstart
  | cons first others =>
      have hfirst : ¬ Text.isBlank first = true := by
        intro hblank
        refine hstart fun character hcharacter => ?_
        rwa [← Option.some.inj hcharacter]
      rw [parse, if_neg hfirst, hnext]

theorem parse_nil : parse [] = [] := by
  rw [parse]

theorem Parses.parse_eq (hparses : Parses text definitions) : parse text = definitions := by
  induction hparses with
  | done => exact parse_nil
  | blank hblank _ ih => rw [parse_blank hblank, ih]
  | argument hreads _ ih => rw [parse_of_next_eq hreads.not_stops hreads.next_eq, ih]
  | @unclosed name value quote hname hquote hvalue =>
      have hnext := next_define hname (quote :: value)
      rw [value_unclosed hquote hvalue] at hnext
      rw [parse_of_next_eq (hname.not_stops_define _) hnext, parse_nil]

theorem parses_parse (text : Text) : Parses text (parse text) := by
  induction text using parse.induct with
  | case1 => exact parse_nil ▸ .done
  | case2 first rest hblank ih => exact parse_blank hblank rest ▸ .blank hblank ih
  | case3 first rest hblank ih =>
      have hstart : ¬ Stops (first :: rest) := fun hstops => hblank (hstops first rfl)
      rcases exists_reads hstart with
        ⟨definition, behind, hreads⟩ | ⟨name, quote, value, hname, hquote, hvalue, htext⟩
      · rw [hreads.next_eq] at ih
        rw [parse_of_next_eq hstart hreads.next_eq]
        exact .argument hreads ih
      · have hparses : Parses (first :: rest) [.define name value] :=
          htext ▸ .unclosed hname hquote hvalue
        exact hparses.parse_eq ▸ hparses

theorem parses_iff : Parses text definitions ↔ parse text = definitions :=
  ⟨Parses.parse_eq, fun hparse => hparse ▸ parses_parse text⟩

/-- Each argument takes up a character of the text. -/
theorem Parses.length_le (hparses : Parses text definitions) :
    definitions.length ≤ text.length := by
  induction hparses with
  | done => exact Nat.le_refl 0
  | blank _ _ ih => exact Nat.le_succ_of_le ih
  | argument hreads _ ih => exact Nat.succ_le_of_lt (ih.trans_lt hreads.length_lt)
  | unclosed => simp only [List.length_append, List.length_cons, List.length_nil]; omega

/-- The name of an argument holds nothing that ends names, and one that is to be shown is not
empty. -/
structure Sound (definition : Definition) : Prop where
  named : Named definition.subject
  filled : ∀ name, definition = .query name → name ≠ []

theorem Reads.sound (hreads : Reads text definition rest) : definition.Sound := by
  cases hreads with
  | query hfilled hname => exact ⟨hname, fun _ hsame => Definition.query.inj hsame ▸ hfilled⟩
  | bare hname => exact ⟨hname, nofun⟩
  | quoted hname => exact ⟨hname, nofun⟩

theorem Parses.sound (hparses : Parses text definitions) :
    ∀ definition ∈ definitions, definition.Sound := by
  induction hparses with
  | done => exact List.forall_mem_nil _
  | blank _ _ ih => exact ih
  | argument hreads _ ih => exact List.forall_mem_cons.mpr ⟨hreads.sound, ih⟩
  | unclosed hname => exact List.forall_mem_singleton.mpr ⟨hname, nofun⟩

end Definition

/-! ### Where a text is left -/

namespace Place

open Definition

variable {name value text rest : Text} {quote : Char}

theorem leavesOpen_cons (place : Place) (character : Char) (rest : Text) :
    place.leavesOpen (character :: rest) = (place.next character).leavesOpen rest :=
  rfl

theorem next_of_isBlank {place : Place} (hplace : place.isQuoted = false) {character : Char}
    (hblank : Text.isBlank character = true) : place.next character = fresh := by
  have hequals : character ≠ '=' := by
    rintro rfl
    exact absurd hblank (by decide)
  cases place with
  | fresh | name => simp [next, hequals, hblank]
  | value => simp [next, isQuote_eq_false hblank, hblank]
  | bare => simp [next, hblank]
  | quoted quote => cases hplace

/-- A blank leads to a new argument from all places but a quoted value. -/
theorem leavesOpen_of_stops {place : Place} (hplace : place.isQuoted = false)
    (hrest : Stops rest) : place.leavesOpen rest = fresh.leavesOpen rest := by
  cases rest with
  | nil => exact hplace
  | cons first others =>
      have hblank := hrest first rfl
      rw [leavesOpen_cons, leavesOpen_cons, next_of_isBlank hplace hblank,
        next_of_isBlank rfl hblank]

/-- Characters that do not lead away from a place make no difference. -/
theorem leavesOpen_append_of_stays {place : Place}
    (hstays : ∀ character ∈ text, place.next character = place) (rest : Text) :
    place.leavesOpen (text ++ rest) = place.leavesOpen rest := by
  induction text with
  | nil => rfl
  | cons first others ih =>
      obtain ⟨hfirst, hothers⟩ := List.forall_mem_cons.mp hstays
      rw [List.cons_append, leavesOpen_cons, hfirst, ih hothers]

theorem next_of_endsName_eq_false {character : Char} (hname : endsName character = false) :
    fresh.next character = Place.name ∧ Place.name.next character = Place.name := by
  obtain ⟨hequals, hblank⟩ := Bool.or_eq_false_iff.mp hname
  have hother : character ≠ '=' := ne_of_beq_false hequals
  simp [next, hother, hblank]

theorem leavesOpen_name (hname : Named name) (hfilled : name ≠ []) (rest : Text) :
    fresh.leavesOpen (name ++ rest) = Place.name.leavesOpen rest := by
  obtain ⟨first, others, rfl⟩ := List.exists_cons_of_ne_nil hfilled
  obtain ⟨hfirst, hothers⟩ := List.forall_mem_cons.mp hname
  rw [List.cons_append, leavesOpen_cons, (next_of_endsName_eq_false hfirst).1]
  refine leavesOpen_append_of_stays (fun character hcharacter => ?_) rest
  exact (next_of_endsName_eq_false (hothers character hcharacter)).2

theorem leavesOpen_define (hname : Named name) (rest : Text) :
    fresh.leavesOpen (name ++ '=' :: rest) = Place.value.leavesOpen rest := by
  by_cases hfilled : name = []
  · rw [hfilled]
    rfl
  · rw [leavesOpen_name hname hfilled]
    rfl

theorem leavesOpen_bare (hvalue : ∀ character ∈ value, Text.isBlank character = false)
    (hquote : ∀ character ∈ value.head?, isQuote character = false) (hrest : Stops rest) :
    Place.value.leavesOpen (value ++ rest) = fresh.leavesOpen rest := by
  cases value with
  | nil => exact leavesOpen_of_stops rfl hrest
  | cons first others =>
      obtain ⟨hfirst, hothers⟩ := List.forall_mem_cons.mp hvalue
      have hbare : Place.value.next first = bare := by simp [next, hquote first rfl, hfirst]
      have hstays : ∀ character ∈ others, bare.next character = bare := by
        intro character hcharacter
        simp [next, hothers character hcharacter]
      rw [List.cons_append, leavesOpen_cons, hbare, leavesOpen_append_of_stays hstays,
        leavesOpen_of_stops rfl hrest]

theorem leavesOpen_quote (hquote : isQuote quote = true) (hvalue : quote ∉ value) (rest : Text) :
    Place.value.leavesOpen (quote :: (value ++ rest)) = (quoted quote).leavesOpen rest := by
  have hopens : Place.value.next quote = quoted quote := by simp [next, hquote]
  have hstays : ∀ character ∈ value, (quoted quote).next character = quoted quote := by
    intro character hcharacter
    have hother : character ≠ quote := fun hsame => hvalue (hsame ▸ hcharacter)
    simp [next, hother]
  rw [leavesOpen_cons, hopens, leavesOpen_append_of_stays hstays]

end Place

namespace Definition

variable {text rest back : Text} {definition : Definition} {definitions : List Definition}

theorem Reads.closed_iff (hreads : Reads text definition rest) : Closed text ↔ Closed rest := by
  have hsame : Place.fresh.leavesOpen text = Place.fresh.leavesOpen rest := by
    cases hreads with
    | query hfilled hname hrest =>
        rw [Place.leavesOpen_name hname hfilled, Place.leavesOpen_of_stops rfl hrest]
    | bare hname hvalue hquote hrest =>
        rw [Place.leavesOpen_define hname, Place.leavesOpen_bare hvalue hquote hrest]
    | @quoted _ _ _ quote hname hquote hvalue =>
        have hcloses : (Place.quoted quote).next quote = .fresh := if_pos rfl
        rw [Place.leavesOpen_define hname, Place.leavesOpen_quote hquote hvalue,
          Place.leavesOpen_cons, hcloses]
  rw [Closed, Closed, hsame]

theorem closed_cons_iff {character : Char} (hblank : Text.isBlank character = true) :
    Closed (character :: rest) ↔ Closed rest := by
  rw [Closed, Place.leavesOpen_cons, Place.next_of_isBlank rfl hblank, Closed]

theorem not_closed {name value : Text} {quote : Char} (hname : Named name)
    (hquote : isQuote quote = true) (hvalue : quote ∉ value) :
    ¬ Closed (name ++ '=' :: quote :: value) := by
  have hopen := Place.leavesOpen_quote hquote hvalue []
  rw [List.append_nil] at hopen
  rw [Closed, Place.leavesOpen_define hname, hopen]
  exact nofun

/-- What stands behind a closed text is read as if it stood alone. -/
theorem Parses.append {others : List Definition} (hparses : Parses text definitions)
    (hclosed : Closed text) (hback : Stops back) (hothers : Parses back others) :
    Parses (text ++ back) (definitions ++ others) := by
  induction hparses with
  | done => exact hothers
  | blank hblank _ ih => exact .blank hblank (ih ((closed_cons_iff hblank).mp hclosed))
  | argument hreads _ ih =>
      exact .argument (hreads.append hback) (ih (hreads.closed_iff.mp hclosed))
  | unclosed hname hquote hvalue => exact absurd hclosed (not_closed hname hquote hvalue)

/-- Blanks behind a text that is not closed belong to its last value. -/
theorem Parses.exists_unclosed (hparses : Parses text definitions) (hopen : ¬ Closed text)
    {pad : Text} (hpad : ∀ character ∈ pad, Text.isBlank character = true) :
    ∃ others name value, definitions = others ++ [.define name value] ∧
      Parses (text ++ pad) (others ++ [.define name (value ++ pad)]) := by
  have hstops : Stops pad := fun character hcharacter =>
    hpad character (List.mem_of_mem_head? hcharacter)
  induction hparses with
  | done => exact absurd rfl hopen
  | blank hblank _ ih =>
      rw [closed_cons_iff hblank] at hopen
      obtain ⟨others, name, value, hlast, hparses⟩ := ih hopen
      exact ⟨others, name, value, hlast, .blank hblank hparses⟩
  | @argument _ _ definition _ hreads _ ih =>
      rw [hreads.closed_iff] at hopen
      obtain ⟨others, name, value, hlast, hparses⟩ := ih hopen
      exact ⟨definition :: others, name, value, congrArg _ hlast,
        .argument (hreads.append hstops) hparses⟩
  | @unclosed name value quote hname hquote hvalue =>
      refine ⟨[], name, value, rfl, ?_⟩
      have habsent : quote ∉ value ++ pad := by
        intro hmember
        rcases List.mem_append.mp hmember with hwithin | hbehind
        · exact hvalue hwithin
        · have hnone := isQuote_eq_false (hpad quote hbehind)
          rw [hquote] at hnone
          cases hnone
      rw [List.append_assoc, List.cons_append, List.cons_append]
      exact .unclosed hname hquote habsent

theorem parse_append_blank_iff (text : Text) :
    (∀ back, parse (text ++ ' ' :: back) = parse text ++ parse back) ↔ Closed text := by
  have hblank : Text.isBlank ' ' = true := rfl
  constructor
  · intro happend
    by_contra hopen
    have hpad : ∀ character ∈ [' '], Text.isBlank character = true :=
      List.forall_mem_singleton.mpr hblank
    obtain ⟨others, name, value, hlast, hparses⟩ := (parses_parse text).exists_unclosed hopen hpad
    have hgrown := happend []
    rw [hparses.parse_eq, hlast, parse_nil, List.append_nil] at hgrown
    simp at hgrown
  · intro hclosed back
    have hstops : Stops (' ' :: back) := by
      rintro _ ⟨⟩
      exact hblank
    exact ((parses_parse text).append hclosed hstops (.blank hblank (parses_parse back))).parse_eq

/-- Every text has one reading, of no more arguments than it has characters. A name that is read
ends where it should. What stands behind a blank is read as if it stood alone, exactly when no quote
in front of that is left open. -/
theorem parse_independent (text : Text) :
    (∀ definitions, Parses text definitions ↔ parse text = definitions) ∧
    (parse text).length ≤ text.length ∧
    (∀ name, .query name ∈ parse text → name ≠ []) ∧
    (∀ definition ∈ parse text,
      '=' ∉ definition.subject ∧ ' ' ∉ definition.subject ∧ '\t' ∉ definition.subject) ∧
    ((∀ back, parse (text ++ ' ' :: back) = parse text ++ parse back) ↔ Closed text) := by
  have hsound := (parses_parse text).sound
  refine ⟨fun _ => parses_iff, (parses_parse text).length_le, ?_, ?_, parse_append_blank_iff text⟩
  · intro name hquery
    exact (hsound _ hquery).filled name rfl
  · intro definition hdefinition
    have hnamed := (hsound definition hdefinition).named
    refine ⟨?_, ?_, ?_⟩ <;> intro hmember <;> cases hnamed _ hmember

/-- A quote closes its value wherever it stands, but opens one only behind the equals sign. -/
example :
    parse "a='x y'b 'c=d'e f=\"g '".toList =
      [.define "a" "x y", .query "b", .define "'c" "d'e", .define "f" "g '"] := by
  cbv

end Definition

end CommandShell.Alias
