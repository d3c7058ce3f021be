import CommandShell.Text

/-!
Named values in the order in which their names were first bound. Binding a bound name again
replaces its value in place; a removed name that is bound again goes to the end.
-/

namespace CommandShell

structure Bindings where
  toList : List (Text × Text)
  deriving DecidableEq, Repr

namespace Bindings

def empty : Bindings := ⟨[]⟩

/-- The first value bound to a name counts. -/
def get? (bindings : Bindings) (name : Text) : Option Text :=
  (bindings.toList.find? (·.1 == name)).map (·.2)

def putEntry (name value : Text) : List (Text × Text) → List (Text × Text)
  | [] => [(name, value)]
  | entry :: rest =>
    if entry.1 = name then (entry.1, value) :: rest else entry :: putEntry name value rest

def put (bindings : Bindings) (name value : Text) : Bindings :=
  ⟨putEntry name value bindings.toList⟩

def erase (bindings : Bindings) (name : Text) : Bindings :=
  ⟨bindings.toList.filter (·.1 != name)⟩

def ofList (entries : List (Text × Text)) : Bindings :=
  entries.foldl (fun bindings entry => bindings.put entry.1 entry.2) empty

def names (bindings : Bindings) : List Text :=
  bindings.toList.map (·.1)

theorem get?_put_self (bindings : Bindings) (name value : Text) :
    (bindings.put name value).get? name = some value := by
  obtain ⟨entries⟩ := bindings
  simp only [get?, put]
  induction entries with
  | nil => simp [putEntry]
  | cons entry rest ih =>
    by_cases same : entry.1 = name
    · simp [putEntry, same]
    · simp [putEntry, same, ih]

theorem get?_put_of_ne (bindings : Bindings) {name other : Text} (value : Text)
    (distinct : other ≠ name) : (bindings.put name value).get? other = bindings.get? other := by
  obtain ⟨entries⟩ := bindings
  simp only [get?, put]
  induction entries with
  | nil => simp [putEntry, distinct.symm]
  | cons entry rest ih =>
    by_cases same : entry.1 = name
    · simp [putEntry, same, distinct.symm]
    · by_cases found : entry.1 = other
      · simp [putEntry, found, distinct]
      · simpa [putEntry, same, found] using ih

theorem get?_erase_self (bindings : Bindings) (name : Text) :
    (bindings.erase name).get? name = none := by
  simp [get?, erase]

end Bindings

end CommandShell
