import CommandShell.Proofs.Shell.Composition

/-!
# The run of a line ends

A run takes turns. Each takes the next segment off the queue and skips it, runs it, or runs the
first piece of the alias that it names and queues the others. The table of aliases may be another
one at every turn and the queue may grow, but a piece is not expanded again: the number of segments
that may still be expanded, and then the length of the queue, goes down with every turn.
-/

namespace CommandShell.Shell

variable {World : Type} (platform : Platform World)

inductive Turn
  | skip (segment : Segment)
  | run (segment : Segment)
  | expand (segment : Segment) (pieces : List Segment)
  deriving DecidableEq, Repr

def Turn.segment : Turn → Segment
  | .skip segment | .run segment | .expand segment _ => segment

def turnOf (aliases : Bindings) (segment : Segment) : Turn :=
  if segment.expanded then
    .run segment
  else
    match Alias.expand? aliases segment with
    | some pieces => .expand segment pieces
    | none => .run segment

/-- The next turn of a run; a session that is left by it drops what still waits. -/
def turn? : Shell World × Option Status → Option (Turn × Shell World × Option Status)
  | (shell, left) =>
    match shell.pending with
    | [] => none
    | segment :: rest =>
      if segment.operator.permits shell.session.status then
        let next := advance platform shell.session segment rest
        some (turnOf shell.session.aliases segment,
          match next.session.leaving with
          | some code => ({ session := next.session }, some code)
          | none => (next, none))
      else
        some (.skip segment, { shell with pending := rest }, left)

inductive Turns : Shell World × Option Status → List Turn → Shell World × Option Status → Prop
  | nil (state : Shell World × Option Status) : Turns state [] state
  | cons {state next final : Shell World × Option Status} {turn : Turn} {turns : List Turn}
      (hturn : turn? platform state = some (turn, next)) (hturns : Turns next turns final) :
      Turns state (turn :: turns) final

/-- What a turn does to the queue. Only a segment that was typed is expanded, and what that queues
cannot be expanded again. -/
inductive Turn.Takes : Turn → List Segment → List Segment → Prop
  | skip (segment : Segment) (rest : List Segment) : Takes (.skip segment) (segment :: rest) rest
  | run (segment : Segment) (rest : List Segment) : Takes (.run segment) (segment :: rest) rest
  | expand {segment first : Segment} {others : List Segment} (htyped : segment.expanded = false)
      (hpieces : ∀ piece ∈ first :: others, piece.expanded = true) (rest : List Segment) :
      Takes (.expand segment (first :: others)) (segment :: rest) (others ++ rest)
  | leave {turn : Turn} {pending next : List Segment} (htakes : Takes turn pending next) :
      Takes turn pending []

theorem takes_advance (session : Session World) (segment : Segment) (rest : List Segment) :
    (turnOf session.aliases segment).Takes (segment :: rest)
      (advance platform session segment rest).pending := by
  unfold turnOf advance
  split
  · next hexpanded =>
    rw [resolve, if_pos hexpanded]
    exact .run segment rest
  · next htyped =>
    cases hexpand : Alias.expand? session.aliases segment with
    | none =>
        simp only [resolve, htyped, hexpand]
        exact .run segment rest
    | some pieces =>
        cases pieces with
        | nil =>
            rw [Alias.expand?_eq] at hexpand
            obtain ⟨value, -, hvalue⟩ := Option.map_eq_some_iff.mp hexpand
            cases hvalue
        | cons first others =>
            simp only [resolve, htyped, hexpand]
            exact .expand (by simpa using htyped) (expanded_of_mem_expand? hexpand) rest

theorem takes_of_turn? {state next : Shell World × Option Status} {turn : Turn}
    (hturn : turn? platform state = some (turn, next)) :
    turn.Takes state.1.pending next.1.pending := by
  obtain ⟨⟨session, pending⟩, left⟩ := state
  cases pending with
  | nil => cases hturn
  | cons segment rest =>
      simp only [turn?] at hturn
      split at hturn
      · obtain ⟨rfl, rfl⟩ := Prod.mk.inj (Option.some.inj hturn)
        have htakes := takes_advance platform session segment rest
        split
        · exact .leave htakes
        · exact htakes
      · obtain ⟨rfl, rfl⟩ := Prod.mk.inj (Option.some.inj hturn)
        exact .skip segment rest

theorem measure_nil_lt_cons (segment : Segment) (rest : List Segment) :
    Prod.Lex (· < ·) (· < ·) (measure []) (measure (segment :: rest)) := by
  rcases Nat.eq_zero_or_pos (expandable (segment :: rest)) with hnone | hsome
  · simp only [measure, hnone]
    exact Prod.Lex.right _ (Nat.succ_pos _)
  · exact Prod.Lex.left _ _ hsome

theorem Turn.Takes.exists_cons {turn : Turn} {pending next : List Segment}
    (htakes : turn.Takes pending next) : ∃ rest, pending = turn.segment :: rest := by
  induction htakes with
  | skip segment rest => exact ⟨rest, rfl⟩
  | run segment rest => exact ⟨rest, rfl⟩
  | expand htyped hpieces rest => exact ⟨rest, rfl⟩
  | leave htakes ih => exact ih

theorem Turn.Takes.measure_lt {turn : Turn} {pending next : List Segment}
    (htakes : turn.Takes pending next) :
    Prod.Lex (· < ·) (· < ·) (measure next) (measure pending) := by
  cases htakes with
  | skip segment rest => exact measure_lt_cons segment next
  | run segment rest => exact measure_lt_cons segment next
  | expand htyped hpieces rest =>
      obtain ⟨-, hothers⟩ := List.forall_mem_cons.mp hpieces
      apply Prod.Lex.left
      rw [expandable_append, expandable_eq_zero hothers]
      simp [expandable, htyped]
  | leave htakes =>
      obtain ⟨rest, rfl⟩ := htakes.exists_cons
      exact measure_nil_lt_cons turn.segment rest

def typed (segments : List Segment) : List Segment :=
  segments.filter (!·.expanded)

theorem typed_eq_nil {segments : List Segment}
    (hexpanded : ∀ segment ∈ segments, segment.expanded = true) : typed segments = [] := by
  simpa [typed] using hexpanded

theorem typed_split (line : Text) : typed (Chain.split line) = Chain.split line := by
  rw [typed, List.filter_eq_self]
  intro segment hmember
  rcases List.mem_cons.mp hmember with rfl | hmember
  · rfl
  · obtain ⟨part, -, rfl⟩ := List.mem_map.mp hmember
    rfl

theorem typed_append (front back : List Segment) :
    typed (front ++ back) = typed front ++ typed back :=
  List.filter_append front back

theorem prefix_typed_cons (segment : Segment) {taken rest : List Segment}
    (htaken : taken <+: typed rest) : typed [segment] ++ taken <+: typed (segment :: rest) := by
  have hsplit : typed (segment :: rest) = typed [segment] ++ typed rest :=
    typed_append [segment] rest
  rw [hsplit, List.prefix_append_right_inj]
  exact htaken

/-- Of the segments that were typed, a turn takes the next one or none. -/
theorem Turn.Takes.prefix_typed {turn : Turn} {pending next taken : List Segment}
    (htakes : turn.Takes pending next) (htaken : taken <+: typed next) :
    typed [turn.segment] ++ taken <+: typed pending := by
  induction htakes generalizing taken with
  | skip segment rest => exact prefix_typed_cons segment htaken
  | run segment rest => exact prefix_typed_cons segment htaken
  | expand htyped hpieces rest =>
      obtain ⟨-, hothers⟩ := List.forall_mem_cons.mp hpieces
      rw [typed_append, typed_eq_nil hothers, List.nil_append] at htaken
      exact prefix_typed_cons _ htaken
  | leave htakes ih =>
      rw [List.prefix_nil.mp htaken]
      exact ih List.nil_prefix

theorem Turn.Takes.expand_typed {turn : Turn} {pending next : List Segment}
    (htakes : turn.Takes pending next) {segment : Segment} {pieces : List Segment}
    (hturn : turn = .expand segment pieces) :
    segment.expanded = false ∧ ∀ piece ∈ pieces, piece.expanded = true := by
  induction htakes with
  | skip => cases hturn
  | run => cases hturn
  | expand htyped hpieces rest =>
      obtain ⟨rfl, rfl⟩ := Turn.expand.inj hturn
      exact ⟨htyped, hpieces⟩
  | leave htakes ih => exact ih hturn

theorem wellFounded_turn :
    WellFounded fun next state : Shell World × Option Status =>
      ∃ turn, turn? platform state = some (turn, next) := by
  have hmeasure :
      WellFounded (Prod.Lex ((· < ·) : Nat → Nat → Prop) ((· < ·) : Nat → Nat → Prop)) :=
    (Prod.lex ⟨_, Nat.lt_wfRel.wf⟩ ⟨_, Nat.lt_wfRel.wf⟩).wf
  refine Subrelation.wf (fun {next state} hturn => ?_)
    (InvImage.wf (fun state : Shell World × Option Status => measure state.1.pending) hmeasure)
  obtain ⟨turn, hturn⟩ := hturn
  exact (takes_of_turn? platform hturn).measure_lt

theorem Turns.prefix_typed {state final : Shell World × Option Status} {turns : List Turn}
    (hturns : Turns platform state turns final) :
    typed (turns.map Turn.segment) <+: typed state.1.pending := by
  induction hturns with
  | nil state => exact List.nil_prefix
  | cons hturn hturns ih =>
      exact (typed_append [_] _) ▸ (takes_of_turn? platform hturn).prefix_typed ih

theorem Turns.expand_typed {state final : Shell World × Option Status} {turns : List Turn}
    (hturns : Turns platform state turns final) {segment : Segment} {pieces : List Segment}
    (hmember : Turn.expand segment pieces ∈ turns) :
    segment.expanded = false ∧ ∀ piece ∈ pieces, piece.expanded = true := by
  induction hturns with
  | nil state => cases hmember
  | cons hturn hturns ih =>
      rcases List.mem_cons.mp hmember with hfirst | hmember
      · exact (takes_of_turn? platform hturn).expand_typed hfirst.symm
      · exact ih hmember

theorem exists_turns_drain (session : Session World) (pending : List Segment) :
    ∃ turns,
      Turns platform ({ session, pending }, none) turns (drain platform session pending) := by
  induction session, pending using drain_induction platform with
  | nil session => exact ⟨[], by rw [drain_nil]; exact .nil _⟩
  | skip session segment rest hpermits ih =>
      obtain ⟨turns, hturns⟩ := ih
      rw [drain_cons_of_not_permits platform hpermits]
      refine ⟨.skip segment :: turns, .cons ?_ hturns⟩
      simp [turn?, hpermits]
  | leave session segment rest code hpermits hleaving =>
      refine ⟨[turnOf session.aliases segment], .cons ?_ (.nil _)⟩
      have hadvance : (advance platform session segment rest).session.leaving = some code :=
        hleaving
      rw [drain_cons_of_permits platform hpermits]
      simp only [turn?, hpermits, hadvance, hleaving, if_true]
      rfl
  | stay session segment rest hpermits hleaving ih =>
      obtain ⟨turns, hturns⟩ := ih
      have hadvance : (advance platform session segment rest).session.leaving = none := hleaving
      have hturn : turn? platform ({ session, pending := segment :: rest }, none) =
          some (turnOf session.aliases segment,
            { session := session.runSegment platform (resolve session.aliases segment).1
              pending := (resolve session.aliases segment).2 ++ rest }, none) := by
        simp only [turn?, hpermits, hadvance, if_true]
        rfl
      refine ⟨turnOf session.aliases segment :: turns, .cons hturn ?_⟩
      rw [drain_cons_of_permits platform hpermits]
      simp only [hleaving]
      exact hturns

/-- The run of a line takes finitely many turns, and each segment that was typed is expanded in at
most one of them. -/
theorem executeLine_ends :
    (WellFounded fun next state : Shell World × Option Status =>
      ∃ turn, turn? platform state = some (turn, next)) ∧
    ∀ (shell : Shell World) (line : Text) (recorded : Bool),
      (shell.pending = [] → (shell.executeLine platform line recorded).1.pending = []) ∧
      ∀ text, Line.accepted? line = some text →
        let session := if recorded then remember platform shell.session text else shell.session
        ∃ turns,
          Turns platform ({ session, pending := Chain.split text }, none) turns
            (shell.executeLine platform line recorded) ∧
          turn? platform (shell.executeLine platform line recorded) = none ∧
          typed (turns.map Turn.segment) <+: Chain.split text ∧
          ∀ segment pieces, Turn.expand segment pieces ∈ turns →
            segment.expanded = false ∧ ∀ piece ∈ pieces, piece.expanded = true := by
  refine ⟨wellFounded_turn platform, fun shell line recorded => ⟨fun hpending => ?_, ?_⟩⟩
  · unfold executeLine
    split
    · exact hpending
    · exact pending_drain platform _ _
  · intro text haccepted session
    have hexecute : shell.executeLine platform line recorded =
        drain platform session (Chain.split text) := by
      simp only [executeLine, haccepted]
      rfl
    obtain ⟨turns, hturns⟩ := exists_turns_drain platform session (Chain.split text)
    rw [hexecute]
    refine ⟨turns, hturns, ?_, ?_, fun segment pieces => hturns.expand_typed⟩
    · rw [turn?, pending_drain]
    · have hstart := hturns.prefix_typed
      rwa [typed_split] at hstart

theorem executeLine_ends_self_reference :
    Line.accepted? "loop && alias loop=x;loop # twice" = some "loop && alias loop=x;loop".toList ∧
      ∃ turns,
        Turns (Host.platform 2)
          (⟨(onBareHost [("loop", "loop;loop")]).session, Chain.split "loop && alias loop=x;loop"⟩,
            none)
          turns
          ((onBareHost [("loop", "loop;loop")]).executeLine (Host.platform 2)
            "loop && alias loop=x;loop # twice".toList false) ∧
        typed (turns.map Turn.segment) <+: Chain.split "loop && alias loop=x;loop" := by
  have haccepted : Line.accepted? "loop && alias loop=x;loop # twice" =
      some "loop && alias loop=x;loop".toList := by decide
  obtain ⟨turns, hturns, -, htyped, -⟩ := ((executeLine_ends (Host.platform 2)).2
    (onBareHost [("loop", "loop;loop")]) "loop && alias loop=x;loop # twice".toList false).2
    "loop && alias loop=x;loop".toList haccepted
  exact ⟨haccepted, turns, hturns, htyped⟩

end CommandShell.Shell
