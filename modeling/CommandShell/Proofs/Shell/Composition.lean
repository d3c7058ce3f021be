import CommandShell.Host
import CommandShell.Proofs.Line.Accepted
import CommandShell.Proofs.Shell.Queue

/-!
# Lines joined by an operator

Two accepted lines joined by `;` run as one after the other. Joined by `&&` or `||`, the second runs
when the status that the first leaves allows it; for that it has to be a single segment, since of
several the operator stands in front of the first only.
-/

namespace CommandShell.Shell

variable {World : Type} (platform : Platform World)

theorem executeLine_of_accepted (shell : Shell World) {line : Text}
    (haccepted : Line.accepted? line = some line) :
    shell.executeLine platform line false = drain platform shell.session (Chain.split line) := by
  simp [executeLine, haccepted]

/-- A segment behind an operator and a blank runs as the line that it is, if it runs at all. -/
theorem drain_behind_operator (session : Session World) (operator : Operator) {back : Text}
    (hplain : Chain.Plain back) :
    drain platform session [{ text := ' ' :: back, operator }] =
      if operator.permits session.status then drain platform session (Chain.split back)
      else ({ session }, none) := by
  have hblank : ∀ character ∈ [' '], Text.isBlank character = true :=
    List.forall_mem_singleton.mpr rfl
  have halike : List.Forall₂ Segment.Alike
      [({ text := ' ' :: back, operator := .start } : Segment)] (Chain.split back) := by
    rw [Chain.split_eq_segments, Chain.cut_of_plain hplain]
    exact .cons ⟨rfl, rfl, Text.trim_of_all_append hblank⟩ .nil
  split
  · next hpermits =>
    have hstart : ({ text := ' ' :: back, operator := .start } : Segment).operator.permits
        session.status = true := rfl
    rw [← drain_congr platform halike]
    exact drain_operator platform hstart hpermits []
  · next hpermits =>
    rw [drain_cons_of_not_permits platform hpermits, drain_nil]

theorem split_append_seq (front back : Text) :
    Chain.split (front ++ ';' :: back) =
      Chain.split front ++ { text := (Chain.cut back).1, operator := .seq } ::
        (Chain.cut back).2.map fun part => { text := part.2, operator := part.1 } := by
  have hfresh : Chain.OpensFresh (';' :: back) := trivial
  have hsplit := Chain.split_append front hfresh
  simpa [Chain.cut] using hsplit

theorem split_append_operator (front : Text) {operator : Operator} {back : Text}
    (hoperator : operator = .and ∨ operator = .or) (hplain : Chain.Plain back) :
    Chain.split (front ++ ' ' :: (operator.spelling ++ ' ' :: back)) =
      Chain.split (front ++ [' ']) ++ [{ text := ' ' :: back, operator }] := by
  have hcut : Chain.cut (' ' :: (operator.spelling ++ ' ' :: back)) =
      ([' '], [(operator, ' ' :: back)]) := by
    have hback := Chain.cut_of_plain hplain
    rcases hoperator with rfl | rfl <;> simp [Operator.spelling, Chain.cut, hback]
  have hfresh : Chain.OpensFresh (' ' :: (operator.spelling ++ ' ' :: back)) :=
    Chain.opensFresh_of_isBlank rfl _
  have hsplit := Chain.split_append front hfresh
  rwa [hcut] at hsplit

theorem executeLine_append_operator (shell : Shell World) {front back : Text}
    (hfront : Line.accepted? front = some front) (hback : Line.accepted? back = some back)
    {operator : Operator} (hoperator : operator = .and ∨ operator = .or)
    (hplain : Chain.Plain back) :
    shell.executeLine platform (front ++ ' ' :: (operator.spelling ++ ' ' :: back)) false =
      andThen (shell.executeLine platform front false) fun after =>
        if operator.permits after.session.status then after.executeLine platform back false
        else (after, none) := by
  have hnone : '#' ∉ ' ' :: (operator.spelling ++ [' ']) := by
    rcases hoperator with rfl | rfl <;> decide
  have hblank : ∀ character ∈ [' '], Text.isBlank character = true :=
    List.forall_mem_singleton.mpr rfl
  have hline := Line.accepted?_append hfront hnone hback
  rw [List.cons_append, List.append_assoc, List.singleton_append] at hline
  rw [executeLine_of_accepted platform shell hline, split_append_operator front hoperator hplain,
    drain_append, drain_split_append_blank platform shell.session front hblank,
    executeLine_of_accepted platform shell hfront]
  apply andThen_congr
  intro after hafter
  have hpending := pending_drain platform shell.session (Chain.split front)
  rw [hafter] at hpending
  have hsame : ({ session := after.session } : Shell World) = after := by
    rw [← hpending]
  rw [drain_behind_operator platform _ operator hplain, executeLine_of_accepted platform _ hback,
    hsame]

theorem executeLine_append_seq (shell : Shell World) {front back : Text}
    (hfront : Line.accepted? front = some front) (hback : Line.accepted? back = some back) :
    shell.executeLine platform (front ++ ';' :: back) false =
      andThen (shell.executeLine platform front false) fun after =>
        after.executeLine platform back false := by
  have hnone : '#' ∉ [';'] := by decide
  have hline := Line.accepted?_append hfront hnone hback
  rw [List.singleton_append] at hline
  rw [executeLine_of_accepted platform shell hline, split_append_seq, drain_append,
    executeLine_of_accepted platform shell hfront]
  apply andThen_congr
  intro after _
  have hstart : ({ text := (Chain.cut back).1, operator := .start } : Segment).operator.permits
      after.session.status = true := rfl
  calc drain platform after.session _
      = drain platform after.session (Chain.split back) := drain_operator platform hstart rfl _
    _ = after.executeLine platform back false :=
        (executeLine_of_accepted platform after hback).symm

/-- Joining lines runs them one after the other, the second as its operator asks. -/
theorem executeLine_joined (shell : Shell World) {front back : Text}
    (hfront : Line.accepted? front = some front) (hback : Line.accepted? back = some back) :
    shell.executeLine platform (front ++ ";" ++ back) false =
        (andThen (shell.executeLine platform front false) fun after =>
          after.executeLine platform back false) ∧
      (Chain.Plain back →
        shell.executeLine platform (front ++ " && " ++ back) false =
            (andThen (shell.executeLine platform front false) fun after =>
              if after.session.status = 0 then after.executeLine platform back false
              else (after, none)) ∧
          shell.executeLine platform (front ++ " || " ++ back) false =
            (andThen (shell.executeLine platform front false) fun after =>
              if after.session.status ≠ 0 then after.executeLine platform back false
              else (after, none))) := by
  refine ⟨?_, fun hplain => ⟨?_, ?_⟩⟩
  · rw [List.append_assoc]
    exact executeLine_append_seq platform shell hfront hback
  · have hand := executeLine_append_operator platform shell hfront hback (.inl rfl) hplain
    simp only [Operator.permits, beq_iff_eq] at hand
    rw [List.append_assoc]
    exact hand
  · have hor := executeLine_append_operator platform shell hfront hback (.inr rfl) hplain
    simp only [Operator.permits, bne_iff_ne] at hor
    rw [List.append_assoc]
    exact hor

/-- A shell on a bare host. -/
def onBareHost (aliases : List (Text × Text)) : Shell Host :=
  { session :=
      { Session.new "hsh" 1 (Environment.ofPairs [] "/") (History.new none 16 .onExit)
          Host.bare with
        aliases := ⟨aliases⟩ } }

theorem executeLine_joined_setenv :
    Line.accepted? "setenv A 1;help A" = some "setenv A 1;help A".toList ∧
      Line.accepted? "setenv B $A&$?" = some "setenv B $A&$?".toList ∧
        Chain.Plain "setenv B $A&$?".toList ∧
          (onBareHost []).executeLine (Host.platform 2)
              ("setenv A 1;help A".toList ++ " || ".toList ++ "setenv B $A&$?".toList) false =
            andThen ((onBareHost []).executeLine (Host.platform 2) "setenv A 1;help A".toList false)
              fun after =>
                if after.session.status ≠ 0 then
                  after.executeLine (Host.platform 2) "setenv B $A&$?".toList false
                else (after, none) := by
  have hfront : Line.accepted? "setenv A 1;help A" = some "setenv A 1;help A".toList := by decide
  have hback : Line.accepted? "setenv B $A&$?" = some "setenv B $A&$?".toList := by decide
  have hplain : Chain.Plain "setenv B $A&$?".toList := by decide
  exact ⟨hfront, hback, hplain,
    ((executeLine_joined (Host.platform 2) (onBareHost []) hfront hback).2 hplain).2⟩

end CommandShell.Shell
