import CommandShell.Proofs.Chain.Concatenation
import CommandShell.Proofs.Text.Words
import CommandShell.Shell
import Mathlib.Data.List.Forall2

/-!
# The queue of a line

What is queued in front runs first, also when it queues more: running `front ++ back` is running
`front` and then, unless that left the session, `back`. Segments are told apart only by the
operator, by whether they may be expanded, and by what stands between the blanks at their ends; of
one that may run, the operator does not count any more.
-/

namespace CommandShell

/-- Segments that no run can tell apart. -/
structure Segment.Alike (left right : Segment) : Prop where
  operator : left.operator = right.operator
  expanded : left.expanded = right.expanded
  text : Text.trim Text.isBlank left.text = Text.trim Text.isBlank right.text

theorem Segment.Alike.refl (segment : Segment) : segment.Alike segment := ⟨rfl, rfl, rfl⟩

namespace Chain

theorem plain_of_blank {pad : Text} (hpad : ∀ character ∈ pad, Text.isBlank character = true) :
    cut pad = (pad, []) ∧ OpensFresh pad := by
  constructor
  · apply cut_of_plain
    intro operator hoperator hwithin
    have hblank : ∀ character ∈ operator.spelling, Text.isBlank character = true := by
      intro character hmember
      exact hpad character (hwithin.subset hmember)
    cases operator with
    | start => exact hoperator rfl
    | seq => exact absurd (hblank ';' (by decide)) (by decide)
    | and => exact absurd (hblank '&' (by decide)) (by decide)
    | or => exact absurd (hblank '|' (by decide)) (by decide)
  · cases pad with
    | nil => trivial
    | cons first rest => exact opensFresh_of_isBlank (hpad first List.mem_cons_self) rest

theorem cut_append_blank (text : Text) {pad : Text}
    (hpad : ∀ character ∈ pad, Text.isBlank character = true) :
    cut (text ++ pad) = glue (cut text).1 (cut text).2 (pad, []) := by
  obtain ⟨hcut, hfresh⟩ := plain_of_blank hpad
  rw [cut_append text hfresh, hcut]

/-- Blanks at the end of a text make no difference for its segments. -/
theorem segments_glue_alike (operator : Operator) (expanded : Bool) (text : Text)
    (others : List (Operator × Text)) {pad pad' : Text}
    (hpad : ∀ character ∈ pad, Text.isBlank character = true)
    (hpad' : ∀ character ∈ pad', Text.isBlank character = true) :
    List.Forall₂ Segment.Alike (segments operator expanded (glue text others (pad, [])))
      (segments operator expanded (glue text others (pad', []))) := by
  induction others generalizing operator text with
  | nil =>
      refine .cons ⟨rfl, rfl, ?_⟩ .nil
      simp only [glue]
      rw [Text.trim_append_of_all hpad, Text.trim_append_of_all hpad']
  | cons entry rest ih => exact .cons (.refl _) (ih entry.1 entry.2)

end Chain

theorem Alias.expand?_eq (aliases : Bindings) (segment : Segment) :
    Alias.expand? aliases segment =
      (aliases.get? (firstWord segment.text).1).map fun value =>
        Chain.segments segment.operator true (Chain.cut (value ++ (firstWord segment.text).2)) :=
  rfl

namespace Shell

variable {World : Type} (platform : Platform World)

/-- Goes on with a shell that was not left. -/
def andThen (outcome : Shell World × Option Status)
    (next : Shell World → Shell World × Option Status) : Shell World × Option Status :=
  match outcome with
  | (shell, some code) => (shell, some code)
  | (shell, none) => next shell

theorem andThen_congr {outcome : Shell World × Option Status}
    {next next' : Shell World → Shell World × Option Status}
    (hnext : ∀ shell, outcome = (shell, none) → next shell = next' shell) :
    andThen outcome next = andThen outcome next' := by
  obtain ⟨shell, code⟩ := outcome
  cases code with
  | none => exact hnext shell rfl
  | some code => rfl

theorem resolve_of_expanded (aliases : Bindings) {segment : Segment}
    (hexpanded : segment.expanded = true) : resolve aliases segment = (segment, []) := by
  rw [resolve, if_pos hexpanded]

theorem resolve_of_get?_eq_none {aliases : Bindings} {segment : Segment}
    (hnone : aliases.get? (Alias.firstWord segment.text).1 = none) :
    resolve aliases segment = (segment, []) := by
  unfold resolve
  rw [Alias.expand?_eq, hnone, Option.map_none]
  split <;> rfl

theorem resolve_alike (aliases : Bindings) {left right : Segment} (halike : left.Alike right) :
    (resolve aliases left).1.Alike (resolve aliases right).1 ∧
      List.Forall₂ Segment.Alike (resolve aliases left).2 (resolve aliases right).2 := by
  by_cases hexpanded : left.expanded = true
  · have hexpanded' : right.expanded = true := halike.expanded ▸ hexpanded
    rw [resolve_of_expanded aliases hexpanded, resolve_of_expanded aliases hexpanded']
    exact ⟨halike, .nil⟩
  · have hexpanded' : ¬ right.expanded = true := halike.expanded ▸ hexpanded
    obtain ⟨pad, hpad, hleft⟩ := Alias.exists_firstWord_trim left.text
    obtain ⟨pad', hpad', hright⟩ := Alias.exists_firstWord_trim right.text
    rw [← halike.text] at hright
    have hexpandLeft := Alias.expand?_eq aliases left
    have hexpandRight := Alias.expand?_eq aliases right
    rw [hleft, halike.operator] at hexpandLeft
    rw [hright] at hexpandRight
    cases hvalue : aliases.get? (Alias.firstWord (Text.trim Text.isBlank left.text)).1 with
    | none =>
        rw [hvalue] at hexpandLeft hexpandRight
        simp only [resolve, hexpanded, hexpanded', hexpandLeft, hexpandRight]
        exact ⟨halike, .nil⟩
    | some value =>
        rw [hvalue, Option.map_some, ← List.append_assoc, Chain.cut_append_blank _ hpad]
          at hexpandLeft
        rw [hvalue, Option.map_some, ← List.append_assoc, Chain.cut_append_blank _ hpad']
          at hexpandRight
        have hpieces := Chain.segments_glue_alike right.operator true
          (Chain.cut (value ++ (Alias.firstWord (Text.trim Text.isBlank left.text)).2)).1
          (Chain.cut (value ++ (Alias.firstWord (Text.trim Text.isBlank left.text)).2)).2
          hpad hpad'
        simp only [resolve, hexpanded, hexpanded', hexpandLeft, hexpandRight]
        exact List.forall₂_cons.mp hpieces

theorem runSegment_alike (session : Session World) {left right : Segment}
    (halike : left.Alike right) :
    session.runSegment platform left = session.runSegment platform right := by
  have hwords : Text.words left.text = Text.words right.text := by
    rw [← Text.words_trim left.text, halike.text, Text.words_trim]
  rw [Session.runSegment, Session.runSegment, Session.expandedWords, Session.expandedWords, hwords]

theorem drain_nil (session : Session World) : drain platform session [] = ({ session }, none) := by
  rw [drain]

theorem drain_cons_of_not_permits {session : Session World} {segment : Segment}
    (hpermits : ¬ segment.operator.permits session.status = true) (rest : List Segment) :
    drain platform session (segment :: rest) = drain platform session rest := by
  rw [drain, if_neg hpermits]

theorem drain_cons_of_permits {session : Session World} {segment : Segment}
    (hpermits : segment.operator.permits session.status = true) (rest : List Segment) :
    drain platform session (segment :: rest) =
      let after := session.runSegment platform (resolve session.aliases segment).1
      match after.leaving with
      | some code => ({ session := after }, some code)
      | none => drain platform after ((resolve session.aliases segment).2 ++ rest) := by
  rw [drain, if_pos hpermits]
  rfl

theorem split_of_plain {text : Text} (hplain : Chain.Plain text) :
    Chain.split text = [{ text, operator := .start }] := by
  rw [Chain.split_eq_segments, Chain.cut_of_plain hplain]
  rfl

theorem drain_split_of_plain (session : Session World) {text : Text} (hplain : Chain.Plain text)
    (hname : session.aliases.get? (Alias.firstWord text).1 = none) :
    drain platform session (Chain.split text) =
      let after := session.runSegment platform { text, operator := .start }
      ({ session := after }, after.leaving) := by
  rw [split_of_plain hplain, drain_cons_of_permits platform rfl, resolve_of_get?_eq_none hname]
  simp only [List.nil_append, drain_nil]
  split
  · next code hleaving => rw [hleaving]
  · next hleaving => rw [hleaving]

theorem aliases_remember (session : Session World) (text : Text) :
    (remember platform session text).aliases = session.aliases := by
  unfold remember
  split <;> rfl

/-- All that counts of a line is its accepted part. -/
theorem executeLine_congr (shell : Shell World) {line other : Text}
    (haccepted : Line.accepted? line = Line.accepted? other) (recorded : Bool) :
    shell.executeLine platform line recorded = shell.executeLine platform other recorded := by
  rw [executeLine, executeLine, haccepted]

/-- A line of a single segment that names no alias is one command. -/
theorem executeLine_of_plain (shell : Shell World) {line text : Text}
    (haccepted : Line.accepted? line = some text) (hplain : Chain.Plain text)
    (hname : shell.session.aliases.get? (Alias.firstWord text).1 = none) (recorded : Bool) :
    shell.executeLine platform line recorded =
      let start := if recorded then remember platform shell.session text else shell.session
      let after := start.runSegment platform { text, operator := .start }
      ({ session := after }, after.leaving) := by
  rw [executeLine, haccepted]
  refine drain_split_of_plain platform _ hplain ?_
  split
  · rwa [aliases_remember]
  · exact hname

theorem runLines_cons (shell : Shell World) (line : Text) (rest : List Text) :
    shell.runLines platform (line :: rest) =
      andThen (shell.runLine platform line) fun after => after.runLines platform rest :=
  rfl

theorem fst_runLines_singleton (shell : Shell World) (line : Text) :
    (shell.runLines platform [line]).1 = (shell.runLine platform line).1 := by
  rw [runLines_cons]
  rcases shell.runLine platform line with ⟨after, _ | code⟩ <;> rfl

/-- What each line keeps of its end, a run of lines keeps. -/
theorem runLines_keeps {motive : Shell World × Option Status → Prop}
    (hline : ∀ shell line, motive (shell, none) → motive (shell.runLine platform line))
    {shell : Shell World} (hstart : motive (shell, none)) (lines : List Text) :
    motive (shell.runLines platform lines) := by
  induction lines generalizing shell with
  | nil => exact hstart
  | cons line rest ih =>
      have hfirst := hline shell line hstart
      rw [runLines_cons]
      generalize shell.runLine platform line = run at hfirst
      obtain ⟨after, _ | code⟩ := run
      · exact ih hfirst
      · exact hfirst

/-- What holds of every queue along its run: each step skips a segment, or runs what it was
resolved to and goes on, or is left by it. -/
@[elab_as_elim]
theorem drain_induction {motive : Session World → List Segment → Prop}
    (nil : ∀ session, motive session [])
    (skip : ∀ session segment rest, ¬ segment.operator.permits session.status = true →
      motive session rest → motive session (segment :: rest))
    (leave : ∀ session segment rest code, segment.operator.permits session.status = true →
      (session.runSegment platform (resolve session.aliases segment).1).leaving = some code →
        motive session (segment :: rest))
    (stay : ∀ session segment rest, segment.operator.permits session.status = true →
      (session.runSegment platform (resolve session.aliases segment).1).leaving = none →
        motive (session.runSegment platform (resolve session.aliases segment).1)
          ((resolve session.aliases segment).2 ++ rest) → motive session (segment :: rest))
    (session : Session World) (pending : List Segment) : motive session pending :=
  drain.induct platform motive nil
    (fun session segment rest hpermits code hleaving =>
      leave session segment rest code hpermits hleaving)
    (fun session segment rest hpermits hleaving ih =>
      stay session segment rest hpermits hleaving ih)
    skip session pending

theorem resolve_operator (aliases : Bindings) (segment : Segment) (operator : Operator) :
    (resolve aliases { segment with operator }).1.text = (resolve aliases segment).1.text ∧
      (resolve aliases { segment with operator }).2 = (resolve aliases segment).2 := by
  unfold resolve
  by_cases hexpanded : segment.expanded = true
  · simp [hexpanded]
  · simp only [hexpanded, Alias.expand?_eq]
    cases aliases.get? (Alias.firstWord segment.text).1 with
    | none => exact ⟨rfl, rfl⟩
    | some value => exact ⟨rfl, rfl⟩

/-- Once a segment may run, its operator has done its work. -/
theorem drain_operator {session : Session World} {segment : Segment} {operator : Operator}
    (hpermits : segment.operator.permits session.status = true)
    (hpermits' : operator.permits session.status = true) (rest : List Segment) :
    drain platform session ({ segment with operator } :: rest) =
      drain platform session (segment :: rest) := by
  obtain ⟨htext, hqueued⟩ := resolve_operator session.aliases segment operator
  have hrun : session.runSegment platform (resolve session.aliases { segment with operator }).1 =
      session.runSegment platform (resolve session.aliases segment).1 := by
    rw [Session.runSegment, htext, ← Session.runSegment]
  rw [drain_cons_of_permits platform hpermits, drain_cons_of_permits platform hpermits', hrun,
    hqueued]

theorem drain_append (session : Session World) (front back : List Segment) :
    drain platform session (front ++ back) =
      andThen (drain platform session front) fun after => drain platform after.session back := by
  -- The front part may grow by the pieces of an alias, so the induction follows the run itself.
  induction session, front using drain_induction platform with
  | nil session => rw [List.nil_append, drain_nil, andThen]
  | skip session segment rest hpermits ih =>
      rw [List.cons_append, drain_cons_of_not_permits platform hpermits,
        drain_cons_of_not_permits platform hpermits, ih]
  | leave session segment rest code hpermits hleaving =>
      rw [List.cons_append, drain_cons_of_permits platform hpermits,
        drain_cons_of_permits platform hpermits]
      simp only [hleaving, andThen]
  | stay session segment rest hpermits hleaving ih =>
      rw [List.cons_append, drain_cons_of_permits platform hpermits,
        drain_cons_of_permits platform hpermits]
      simp only [hleaving, ← List.append_assoc]
      exact ih

theorem pending_drain (session : Session World) (pending : List Segment) :
    (drain platform session pending).1.pending = [] := by
  induction session, pending using drain_induction platform with
  | nil session => rw [drain_nil]
  | skip session segment rest hpermits ih => rw [drain_cons_of_not_permits platform hpermits, ih]
  | leave session segment rest code hpermits hleaving =>
      rw [drain_cons_of_permits platform hpermits]
      simp only [hleaving]
  | stay session segment rest hpermits hleaving ih =>
      rw [drain_cons_of_permits platform hpermits]
      simpa only [hleaving] using ih

theorem drain_congr {session : Session World} {left right : List Segment}
    (halike : List.Forall₂ Segment.Alike left right) :
    drain platform session left = drain platform session right := by
  induction session, left using drain_induction platform generalizing right with
  | nil session =>
      cases halike
      rfl
  | skip session segment rest hpermits ih =>
      cases halike with
      | cons hfirst hrest =>
          rw [drain_cons_of_not_permits platform hpermits, ih hrest, drain_cons_of_not_permits]
          rwa [← hfirst.operator]
  | leave session segment rest code hpermits hleaving =>
      cases halike with
      | cons hfirst hrest =>
          have hresolved := (resolve_alike session.aliases hfirst).1
          have hpermits' := hpermits
          rw [hfirst.operator] at hpermits'
          rw [drain_cons_of_permits platform hpermits, drain_cons_of_permits platform hpermits',
            ← runSegment_alike platform session hresolved]
          simp only [hleaving]
  | stay session segment rest hpermits hleaving ih =>
      cases halike with
      | cons hfirst hrest =>
          obtain ⟨hresolved, hqueued⟩ := resolve_alike session.aliases hfirst
          have hpermits' := hpermits
          rw [hfirst.operator] at hpermits'
          rw [drain_cons_of_permits platform hpermits, drain_cons_of_permits platform hpermits',
            ← runSegment_alike platform session hresolved]
          simp only [hleaving]
          exact ih (List.rel_append hqueued hrest)

theorem drain_split_append_blank (session : Session World) (text : Text) {pad : Text}
    (hpad : ∀ character ∈ pad, Text.isBlank character = true) :
    drain platform session (Chain.split (text ++ pad)) =
      drain platform session (Chain.split text) := by
  apply drain_congr
  have hnone : ∀ character ∈ ([] : Text), Text.isBlank character = true := by simp
  have halike := Chain.segments_glue_alike .start false (Chain.cut text).1 (Chain.cut text).2
    hpad hnone
  rwa [← Chain.cut_append_blank text hpad, ← Chain.cut_append_blank text hnone,
    List.append_nil] at halike

end Shell

end CommandShell
