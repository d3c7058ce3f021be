import CommandShell.Proofs.History.Window
import Mathlib.Data.List.Induction

/-!
# What a run of operations brings to the file

A line that was taken up waits for the file to be written. It gets there if that happens before as
many lines as the window holds have come behind it, and before the entries give way to the records
of the file. So each line's fate is told by what comes after it; a history tells it the other way
round, by bringing to the file the newest of the lines that have been waiting.
-/

namespace CommandShell.History

/-- What is asked of a history. -/
inductive Operation
  | load
  | push (line : Text)
  | save
  | finish
  | renumber
  deriving DecidableEq, Repr

/-- What becomes of the lines that wait for the file. -/
inductive Happening
  | taken (line : Text)
  | written
  | replaced
  deriving DecidableEq, Repr

namespace Operation

def run {World : Type} (platform : Platform World) (world : World) (history : History) :
    Operation → World × History × Except Fault Unit
  | load =>
    let (history, outcome) := history.load platform world
    (world, history, outcome.map fun _ => ())
  | push line => history.push platform world line
  | save => history.save platform world
  | finish => history.finish platform world
  | renumber => (world, history.renumber, .ok ())

def line? : Operation → Option Text
  | push line => if line.isEmpty then none else some line
  | _ => none

/-- What happens when the operation was made, or failed. -/
def happenings (sync : Sync) (made : Bool) : Operation → List Happening
  | load => if made then [.replaced] else []
  | push line =>
    if line.isEmpty then []
    else .taken line :: if made && sync = .eachLine then [.written] else []
  | save => if made then [.written] else []
  | finish => if made && sync = .onExit then [.written] else []
  | renumber => []

end Operation

def Happening.line? : Happening → Option Text
  | .taken line => some line
  | _ => none

variable {limit : Nat} {line : Text} {lines : List Text} {front later happenings : List Happening}

/-! ### The fate of a line -/

/-- The file is written behind so few lines that they all fit into the window with the one before
them. -/
def Reaches (limit : Nat) (later : List Happening) : Prop :=
  ∃ (lines : List Text) (rest : List Happening),
    later = lines.map .taken ++ .written :: rest ∧ lines.length < limit

theorem not_reaches_nil : ¬ Reaches limit [] := by
  rintro ⟨lines, rest, hlater, -⟩
  simp at hlater

theorem not_reaches_replaced : ¬ Reaches limit (.replaced :: later) := by
  rintro ⟨_ | ⟨line, lines⟩, rest, hlater, -⟩ <;> simp at hlater

theorem reaches_written_iff : Reaches limit (.written :: later) ↔ 0 < limit := by
  constructor
  · rintro ⟨lines, rest, -, hfits⟩
    exact Nat.zero_lt_of_lt hfits
  · intro hlimit
    exact ⟨[], later, rfl, hlimit⟩

theorem reaches_taken_iff :
    Reaches limit (.taken line :: later) ↔ Reaches (limit - 1) later := by
  constructor
  · rintro ⟨_ | ⟨first, lines⟩, rest, hlater, hfits⟩
    · simp at hlater
    · rw [List.length_cons] at hfits
      exact ⟨lines, rest, (List.cons.inj hlater).2, by omega⟩
  · rintro ⟨lines, rest, rfl, hfits⟩
    exact ⟨line :: lines, rest, rfl, by rw [List.length_cons]; omega⟩

instance decidableReaches : (limit : Nat) → (later : List Happening) →
    Decidable (Reaches limit later)
  | _, [] => .isFalse not_reaches_nil
  | _, .replaced :: _ => .isFalse not_reaches_replaced
  | limit, .written :: _ => decidable_of_iff (0 < limit) reaches_written_iff.symm
  | limit, .taken _ :: later =>
    have := decidableReaches (limit - 1) later
    decidable_of_iff _ reaches_taken_iff.symm

/-- The lines that get into the file, in the order in which they were taken up. -/
def writtenLines (limit : Nat) : List Happening → List Text
  | [] => []
  | .taken line :: later =>
    if Reaches limit later then line :: writtenLines limit later else writtenLines limit later
  | .written :: later | .replaced :: later => writtenLines limit later

theorem sublist_writtenLines (limit : Nat) (happenings : List Happening) :
    (writtenLines limit happenings).Sublist (happenings.filterMap Happening.line?) := by
  induction happenings with
  | nil => exact List.nil_sublist _
  | cons first later ih =>
      cases first with
      | taken line =>
          have hline : (Happening.taken line).line? = some line := rfl
          rw [List.filterMap_cons_some hline, writtenLines]
          split
          · exact ih.cons_cons line
          · exact ih.cons line
      | written | replaced => exact ih

/-! ### The lines that wait -/

/-- The lines that came in since the file was last written or read. -/
def waiting (happenings : List Happening) : List Text :=
  happenings.foldl
    (fun lines happening =>
      match happening with
      | .taken line => lines ++ [line]
      | .written | .replaced => [])
    []

theorem waiting_concat_taken :
    waiting (happenings ++ [.taken line]) = waiting happenings ++ [line] :=
  List.foldl_append

theorem waiting_concat_written : waiting (happenings ++ [.written]) = [] :=
  List.foldl_append

theorem waiting_concat_replaced : waiting (happenings ++ [.replaced]) = [] :=
  List.foldl_append

/-- No line waits behind it. -/
def Closed (front : List Happening) : Prop :=
  ∀ line, front.getLast? ≠ some (.taken line)

theorem exists_closed (happenings : List Happening) :
    ∃ front, Closed front ∧ happenings = front ++ (waiting happenings).map .taken := by
  induction happenings using List.reverseRecOn with
  | nil => exact ⟨[], nofun, rfl⟩
  | append_singleton earlier last ih =>
      cases last with
      | taken line =>
          obtain ⟨front, hclosed, hearlier⟩ := ih
          refine ⟨front, hclosed, ?_⟩
          rw [waiting_concat_taken, List.map_append, ← List.append_assoc, ← hearlier]
          rfl
      | written =>
          refine ⟨earlier ++ [.written], by simp [Closed], ?_⟩
          rw [waiting_concat_written, List.map_nil, List.append_nil]
      | replaced =>
          refine ⟨earlier ++ [.replaced], by simp [Closed], ?_⟩
          rw [waiting_concat_replaced, List.map_nil, List.append_nil]

theorem reaches_append_iff (hclosed : Closed front) (hne : front ≠ []) :
    Reaches limit (front ++ later) ↔ Reaches limit front := by
  induction front generalizing limit with
  | nil => exact absurd rfl hne
  | cons first rest ih =>
      cases first with
      | written => rw [List.cons_append, reaches_written_iff, reaches_written_iff]
      | replaced => exact iff_of_false not_reaches_replaced not_reaches_replaced
      | taken line =>
          have hrest : rest ≠ [] := by
            rintro rfl
            exact hclosed line rfl
          have hclosed' : Closed rest := by
            intro other hlast
            exact hclosed other (by rw [List.getLast?_cons_of_ne_nil hrest, hlast])
          rw [List.cons_append, reaches_taken_iff, reaches_taken_iff, ih hclosed' hrest]

/-- What is behind a point where no line waits decides nothing about the lines before it. -/
theorem writtenLines_append (hclosed : Closed front) (later : List Happening) :
    writtenLines limit (front ++ later) = writtenLines limit front ++ writtenLines limit later := by
  induction front with
  | nil => rfl
  | cons first rest ih =>
      rcases eq_or_ne rest [] with rfl | hrest
      · cases first with
        | taken line => exact absurd rfl (hclosed line)
        | written | replaced => rfl
      · have hclosed' : Closed rest := by
          intro other hlast
          exact hclosed other (by rw [List.getLast?_cons_of_ne_nil hrest, hlast])
        cases first with
        | taken line =>
            simp only [List.cons_append, writtenLines, reaches_append_iff hclosed' hrest,
              ih hclosed']
            split <;> rfl
        | written | replaced => exact ih hclosed'

theorem reaches_taken_append_written_iff (lines : List Text) :
    Reaches limit (lines.map .taken ++ [.written]) ↔ lines.length < limit := by
  induction lines generalizing limit with
  | nil => exact reaches_written_iff
  | cons line rest ih =>
      rw [List.map_cons, List.cons_append, reaches_taken_iff, ih, List.length_cons]
      omega

theorem not_reaches_of_written_not_mem (hnone : .written ∉ later) : ¬ Reaches limit later := by
  rintro ⟨lines, rest, rfl, -⟩
  exact hnone (List.mem_append_right _ List.mem_cons_self)

theorem writtenLines_of_written_not_mem (hnone : .written ∉ happenings) :
    writtenLines limit happenings = [] := by
  induction happenings with
  | nil => rfl
  | cons first later ih =>
      have hlater := List.not_mem_of_not_mem_cons hnone
      cases first with
      | taken line =>
          rw [writtenLines, if_neg (not_reaches_of_written_not_mem hlater), ih hlater]
      | written => exact absurd List.mem_cons_self hnone
      | replaced => exact ih hlater

theorem writtenLines_taken_append_written (lines : List Text) :
    writtenLines limit (lines.map .taken ++ [.written]) = newest limit lines := by
  induction lines with
  | nil => exact (newest_of_length_le (Nat.zero_le limit)).symm
  | cons line rest ih =>
      rw [List.map_cons, List.cons_append, writtenLines]
      simp only [reaches_taken_append_written_iff, ih]
      split
      · next hfits =>
        have hwhole : (line :: rest).length ≤ limit := hfits
        rw [newest_of_length_le (Nat.le_of_lt hfits), newest_of_length_le hwhole]
      · next hfull => exact (newest_append_of_le [line] (Nat.le_of_not_lt hfull)).symm

/-! ### One happening more -/

theorem written_not_mem_taken (lines : List Text) : Happening.written ∉ lines.map .taken := by
  simp

theorem writtenLines_concat_written :
    writtenLines limit (happenings ++ [.written]) =
      writtenLines limit happenings ++ newest limit (waiting happenings) := by
  obtain ⟨front, hclosed, hfront⟩ := exists_closed happenings
  conv => lhs; rw [hfront]
  conv => rhs; lhs; rw [hfront]
  rw [List.append_assoc, writtenLines_append hclosed, writtenLines_append hclosed,
    writtenLines_taken_append_written, writtenLines_of_written_not_mem (written_not_mem_taken _),
    List.append_nil]

theorem writtenLines_concat_of_ne {happening : Happening} (hne : happening ≠ .written) :
    writtenLines limit (happenings ++ [happening]) = writtenLines limit happenings := by
  obtain ⟨front, hclosed, hfront⟩ := exists_closed happenings
  have hnone : .written ∉ (waiting happenings).map .taken ++ [happening] := by
    simpa using hne.symm
  rw [hfront, List.append_assoc, writtenLines_append hclosed, writtenLines_append hclosed,
    writtenLines_of_written_not_mem hnone,
    writtenLines_of_written_not_mem (written_not_mem_taken _)]

theorem prefix_writtenLines (limit : Nat) (earlier later : List Happening) :
    writtenLines limit earlier <+: writtenLines limit (earlier ++ later) := by
  induction later using List.reverseRecOn with
  | nil => exact ⟨[], by rw [List.append_nil, List.append_nil]⟩
  | append_singleton front last ih =>
      rw [← List.append_assoc]
      by_cases hlast : last = .written
      · rw [hlast, writtenLines_concat_written]
        exact ih.trans (List.prefix_append _ _)
      · rwa [writtenLines_concat_of_ne hlast]

end CommandShell.History
