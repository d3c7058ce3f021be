import CommandShell.Bindings

/-!
The arguments of `alias`, read as one text: definitions `name=value`, whose value may be quoted to
hold blanks, and names to show.
-/

namespace CommandShell.Alias

inductive Definition
  | define (name value : Text)
  | query (name : Text)
  deriving DecidableEq, Repr

namespace Definition

def isQuote (character : Char) : Bool :=
  character == '\'' || character == '"'

def endsName (character : Char) : Bool :=
  character == '=' || Text.isBlank character

/-- A value and what stands behind it. A quoted value ends at the next quote of its kind, or with
the text. -/
def value : Text → Text × Text
  | [] => ([], [])
  | first :: rest =>
    if isQuote first then
      (rest.takeWhile (· != first), (rest.dropWhile (· != first)).drop 1)
    else
      ((first :: rest).takeWhile (!Text.isBlank ·), (first :: rest).dropWhile (!Text.isBlank ·))

/-- The definition at the start of a text that starts with no blank, and what stands behind it. -/
def next (text : Text) : Definition × Text :=
  let name := text.takeWhile (!endsName ·)
  match text.dropWhile (!endsName ·) with
  | '=' :: rest => (.define name (value rest).1, (value rest).2)
  | rest => (.query name, rest)

theorem length_value_le (text : Text) : (value text).2.length ≤ text.length := by
  unfold value
  split
  · exact Nat.le_refl _
  · next first rest =>
    split
    · rw [List.length_drop]
      have shorter := (List.dropWhile_suffix (l := rest) (· != first)).length_le
      simp only [List.length_cons]
      omega
    · exact (List.dropWhile_suffix _).length_le

theorem length_next_lt {first : Char} (rest : Text) (starts : Text.isBlank first = false) :
    (next (first :: rest)).2.length < (first :: rest).length := by
  unfold next
  have shorter := (List.dropWhile_suffix (l := first :: rest) (!endsName ·)).length_le
  split
  · next after found =>
    rw [found] at shorter
    have ends := length_value_le after
    simp only [List.length_cons] at shorter ⊢
    omega
  · next after unlike =>
    by_cases ends : endsName first = true
    · have equals : first = '=' := by simpa [endsName, starts] using ends
      subst equals
      exact absurd (by simp [List.dropWhile, endsName]) (unlike rest)
    · simp only [Bool.not_eq_true] at ends
      have walked : (first :: rest).dropWhile (!endsName ·) = rest.dropWhile (!endsName ·) := by
        simp [List.dropWhile, ends]
      rw [walked]
      exact Nat.lt_succ_of_le (List.dropWhile_suffix _).length_le

def parse (text : Text) : List Definition :=
  match text with
  | [] => []
  | first :: rest =>
    if Text.isBlank first then
      parse rest
    else
      (next (first :: rest)).1 :: parse (next (first :: rest)).2
termination_by text.length
decreasing_by
  · exact Nat.lt_succ_self _
  · rename_i starts
    exact length_next_lt rest (by simpa using starts)

end Definition

end CommandShell.Alias
