import CommandShell.Lookup
import CommandShell.Proofs.Text.Words

/-!
# Which file a name stands for

A bare name stands for the first file that an entry of the search path holds under it, and when none
does, for the one in the current directory. Entries that do not hold the name make no difference
wherever they stand, and of two paths put together the first is asked before the second.
-/

namespace CommandShell

namespace Lookup

/-- The entries that a search path spells, none of which has a colon in it. A path that is not set
spells none. -/
inductive Spells : Option Text → List Path → Prop
  | unset : Spells none []
  | set {parts : List Path} (hne : parts ≠ []) (hplain : ∀ part ∈ parts, ':' ∉ part) :
      Spells (some (Text.joined ":" parts)) parts

theorem spells_iff {searchPath : Option Text} {parts : List Path} :
    Spells searchPath parts ↔ parts = searchPath.toList.flatMap entries := by
  constructor
  · rintro (_ | ⟨hne, hplain⟩)
    · rfl
    · simp only [Option.toList_some, List.flatMap_singleton]
      exact (Text.pieces_joined hne hplain).symm
  · rintro rfl
    cases searchPath with
    | none => exact .unset
    | some text =>
        simp only [Option.toList_some, List.flatMap_singleton]
        have hspells : Spells (some (Text.joined ":" (entries text))) (entries text) := by
          refine .set (Text.pieces_ne_nil _ text) fun part hpart hcolon => ?_
          have hseparates := Text.not_separates_of_mem_pieces hpart ':' hcolon
          exact absurd hseparates (by decide)
        have htext : Text.joined ":" (entries text) = text := Text.joined_pieces ':' text
        rwa [htext] at hspells

variable (isRegular : Path → Bool) (directory : Path) (name : Text)

/-- A search path is asked for names only that are no paths themselves. -/
def Bare : Prop :=
  name ≠ [] ∧ '/' ∉ name

/-- The entry has a regular file under the name; nothing has one under the empty name. -/
def Holds (entry : Path) : Prop :=
  name ≠ [] ∧ isRegular (candidate directory name entry) = true

/-- The entry holds the name, and none of those in front of it does. -/
def First (parts : List Path) (entry : Path) : Prop :=
  ∃ front back, parts = front ++ entry :: back ∧ Holds isRegular directory name entry ∧
    ∀ other ∈ front, ¬ Holds isRegular directory name other

/-- What a name stands for where a search path has these entries. -/
inductive Stands (parts : List Path) : Option Path → Prop
  | nameless (hname : name = []) : Stands parts none
  | located (hslash : '/' ∈ name) (hregular : isRegular (Path.join directory name) = true) :
      Stands parts (some (Path.join directory name))
  | unlocated (hslash : '/' ∈ name) (hregular : isRegular (Path.join directory name) = false) :
      Stands parts none
  | held {entry : Path} (hbare : Bare name) (hfirst : First isRegular directory name parts entry) :
      Stands parts (some (candidate directory name entry))
  | here (hbare : Bare name) (hnone : ∀ entry ∈ parts, ¬ Holds isRegular directory name entry)
      (hregular : isRegular (Path.join directory name) = true) :
      Stands parts (some (Path.join directory name))
  | nowhere (hbare : Bare name) (hnone : ∀ entry ∈ parts, ¬ Holds isRegular directory name entry)
      (hregular : isRegular (Path.join directory name) = false) : Stands parts none

/-- The longer list has all entries of the shorter one, in their order, and between them such as are
idle. -/
inductive Widens (idle : Path → Prop) : List Path → List Path → Prop
  | done : Widens idle [] []
  | keep (entry : Path) {fewer more : List Path} (hrest : Widens idle fewer more) :
      Widens idle (entry :: fewer) (entry :: more)
  | add {entry : Path} (hidle : idle entry) {fewer more : List Path}
      (hrest : Widens idle fewer more) : Widens idle fewer (entry :: more)

variable {isRegular directory name}

theorem First.ne_nil {parts : List Path} {entry : Path}
    (hfirst : First isRegular directory name parts entry) : name ≠ [] := by
  obtain ⟨-, -, -, ⟨hname, -⟩, -⟩ := hfirst
  exact hname

theorem find?_nil (searchPath : Option Text) : find? isRegular directory [] searchPath = none :=
  rfl

theorem find?_of_slash (hslash : '/' ∈ name) (searchPath : Option Text) :
    find? isRegular directory name searchPath = [Path.join directory name].find? isRegular := by
  have hfilled : name.isEmpty = false := by
    cases name with
    | nil => cases hslash
    | cons => rfl
  rw [find?, hfilled, if_neg Bool.false_ne_true, if_pos (List.contains_iff_mem.mpr hslash)]

/-- A bare name is looked for in the entries, and then in the current directory. -/
theorem find?_of_bare (hbare : Bare name) {searchPath : Option Text} {parts : List Path}
    (hspells : Spells searchPath parts) :
    find? isRegular directory name searchPath =
      ((parts.map (candidate directory name)).find? isRegular).or
        ([Path.join directory name].find? isRegular) := by
  obtain ⟨hne, hslash⟩ := hbare
  rw [find?, if_neg (by simpa using hne), if_neg (by simpa using hslash), candidates,
    List.find?_append, spells_iff.mp hspells]

theorem find?_candidates_eq_some_iff (hname : name ≠ []) {parts : List Path} {path : Path} :
    (parts.map (candidate directory name)).find? isRegular = some path ↔
      ∃ entry, First isRegular directory name parts entry ∧
        path = candidate directory name entry := by
  rw [List.find?_map, Option.map_eq_some_iff]
  refine exists_congr fun entry => ?_
  rw [List.find?_eq_some_iff_append, eq_comm (b := path)]
  refine and_congr_left fun _ => ?_
  simp only [First, Holds, Function.comp_apply, ne_eq, hname, not_false_eq_true, true_and,
    Bool.not_eq_true', Bool.not_eq_true]
  tauto

theorem find?_candidates_eq_none_iff (hname : name ≠ []) {parts : List Path} :
    (parts.map (candidate directory name)).find? isRegular = none ↔
      ∀ entry ∈ parts, ¬ Holds isRegular directory name entry := by
  simp [List.find?_eq_none, Holds, hname]

theorem find?_singleton_eq (path : Path) :
    [path].find? isRegular = if isRegular path = true then some path else none := by
  by_cases hregular : isRegular path = true <;> simp [hregular]

/-- A lookup gives what the name stands for. -/
theorem stands_find? {searchPath : Option Text} {parts : List Path}
    (hspells : Spells searchPath parts) :
    Stands isRegular directory name parts (find? isRegular directory name searchPath) := by
  by_cases hname : name = []
  · subst hname
    exact .nameless rfl
  by_cases hslash : '/' ∈ name
  · rw [find?_of_slash hslash, find?_singleton_eq]
    split
    · next hregular => exact .located hslash hregular
    · next hregular => exact .unlocated hslash (by simpa using hregular)
  have hbare : Bare name := ⟨hname, hslash⟩
  rw [find?_of_bare hbare hspells]
  cases hcandidate : (parts.map (candidate directory name)).find? isRegular with
  | some path =>
      obtain ⟨entry, hfirst, rfl⟩ := (find?_candidates_eq_some_iff hname).mp hcandidate
      exact .held hbare hfirst
  | none =>
      have hnone := (find?_candidates_eq_none_iff hname).mp hcandidate
      rw [Option.none_or, find?_singleton_eq]
      split
      · next hregular => exact .here hbare hnone hregular
      · next hregular => exact .nowhere hbare hnone (by simpa using hregular)

theorem find?_eq_iff_stands {searchPath : Option Text} {parts : List Path}
    (hspells : Spells searchPath parts) {answer : Option Path} :
    find? isRegular directory name searchPath = answer ↔
      Stands isRegular directory name parts answer := by
  constructor
  · rintro rfl
    exact stands_find? hspells
  · intro hstands
    cases hstands with
    | nameless hname => rw [hname, find?_nil]
    | located hslash hregular =>
        rw [find?_of_slash hslash, find?_singleton_eq, if_pos hregular]
    | unlocated hslash hregular =>
        rw [find?_of_slash hslash, find?_singleton_eq, if_neg (by simp [hregular])]
    | held hbare hfirst =>
        rw [find?_of_bare hbare hspells,
          (find?_candidates_eq_some_iff hbare.1).mpr ⟨_, hfirst, rfl⟩, Option.some_or]
    | here hbare hnone hregular =>
        rw [find?_of_bare hbare hspells, (find?_candidates_eq_none_iff hbare.1).mpr hnone,
          Option.none_or, find?_singleton_eq, if_pos hregular]
    | nowhere hbare hnone hregular =>
        rw [find?_of_bare hbare hspells, (find?_candidates_eq_none_iff hbare.1).mpr hnone,
          Option.none_or, find?_singleton_eq, if_neg (by simp [hregular])]

theorem isRegular_of_find? {searchPath : Option Text} {path : Path}
    (hfind : find? isRegular directory name searchPath = some path) : isRegular path = true := by
  unfold find? at hfind
  split at hfind
  · cases hfind
  split at hfind <;> exact List.find?_some hfind

/-! ### Search paths that hold the same -/

/-- Idle entries are passed over. -/
theorem find?_of_widens {before after : Option Text} {fewer more : List Path}
    (hbefore : Spells before fewer) (hafter : Spells after more)
    (hwidens : Widens (¬ Holds isRegular directory name ·) fewer more) :
    find? isRegular directory name after = find? isRegular directory name before := by
  by_cases hname : name = []
  · rw [hname, find?_nil, find?_nil]
  by_cases hslash : '/' ∈ name
  · rw [find?_of_slash hslash, find?_of_slash hslash]
  have hbare : Bare name := ⟨hname, hslash⟩
  rw [find?_of_bare hbare hafter, find?_of_bare hbare hbefore]
  congr 1
  clear hbefore hafter
  induction hwidens with
  | done => rfl
  | keep entry _ ih => rw [List.map_cons, List.map_cons, List.find?_cons, List.find?_cons, ih]
  | add hidle _ ih =>
      have hregular : isRegular (candidate directory name _) ≠ true := fun hregular =>
        hidle ⟨hname, hregular⟩
      rw [List.map_cons, List.find?_cons_of_neg hregular, ih]

theorem Spells.append {front : Text} {parts : List Path} (hfront : Spells (some front) parts)
    (back : Text) : Spells (some (front ++ ':' :: back)) (parts ++ entries back) := by
  have hentries : entries (front ++ ':' :: back) = entries front ++ entries back :=
    @Text.pieces_append_separator _ (· == ':') _ rfl front back
  rw [spells_iff] at hfront ⊢
  simp only [Option.toList_some, List.flatMap_singleton] at hfront ⊢
  rw [hfront, hentries]

/-- Of two search paths put together, the first is asked before the second. -/
theorem find?_append_of_first {front : Text} {parts : List Path} (hbare : Bare name)
    (hfront : Spells (some front) parts) {entry : Path}
    (hfirst : First isRegular directory name parts entry) (back : Text) :
    find? isRegular directory name (some (front ++ ':' :: back)) =
      some (candidate directory name entry) := by
  rw [find?_of_bare hbare (hfront.append back), List.map_append, List.find?_append,
    (find?_candidates_eq_some_iff hbare.1).mpr ⟨entry, hfirst, rfl⟩, Option.some_or,
    Option.some_or]

theorem find?_append_of_none {front : Text} {parts : List Path} (hbare : Bare name)
    (hfront : Spells (some front) parts)
    (hnone : ∀ entry ∈ parts, ¬ Holds isRegular directory name entry) (back : Text) :
    find? isRegular directory name (some (front ++ ':' :: back)) =
      find? isRegular directory name (some back) := by
  have hback : Spells (some back) (entries back) := by
    rw [spells_iff, Option.toList_some, List.flatMap_singleton]
  rw [find?_of_bare hbare (hfront.append back), find?_of_bare hbare hback, List.map_append,
    List.find?_append, (find?_candidates_eq_none_iff hbare.1).mpr hnone, Option.none_or]

/-- Where the working directory is spelled from the root, the empty entry stands for it. -/
theorem candidate_nil (habsolute : Path.isAbsolute directory = true) (name : Text) :
    candidate directory name [] = Path.join directory name := by
  have hdirectory : Path.join directory directory = directory := if_pos habsolute
  rw [candidate, List.isEmpty_nil, if_pos rfl, hdirectory]

/-- Whatever the regular files are, a lookup gives what the name stands for, and that is one of
them. It is the same for all search paths that differ in idle entries, and a search path that is
put behind another is asked only where that one does not hold the name. -/
theorem find?_stands (isRegular : Path → Bool) (directory : Path) (name : Text) :
    (∀ searchPath, ∃ parts, Spells searchPath parts ∧
      ∀ answer, find? isRegular directory name searchPath = answer ↔
        Stands isRegular directory name parts answer) ∧
    (Path.isAbsolute directory = true → candidate directory name [] = Path.join directory name) ∧
    (∀ searchPath path, find? isRegular directory name searchPath = some path →
      isRegular path = true) ∧
    (∀ before after fewer more, Spells before fewer → Spells after more →
      Widens (¬ Holds isRegular directory name ·) fewer more →
        find? isRegular directory name after = find? isRegular directory name before) ∧
    ('/' ∉ name → ∀ front back parts, Spells (some front) parts →
      (∀ entry, First isRegular directory name parts entry →
        find? isRegular directory name (some (front ++ ':' :: back)) =
          some (candidate directory name entry)) ∧
      ((∀ entry ∈ parts, ¬ Holds isRegular directory name entry) →
        find? isRegular directory name (some (front ++ ':' :: back)) =
          find? isRegular directory name (some back))) := by
  refine ⟨fun searchPath => ?_, fun habsolute => candidate_nil habsolute name,
    fun _ _ => isRegular_of_find?, fun _ _ _ _ => find?_of_widens,
    fun hslash front back parts hfront => ⟨fun entry hfirst => ?_, fun hnone => ?_⟩⟩
  · have hspells := spells_iff.mpr (rfl : searchPath.toList.flatMap entries = _)
    exact ⟨_, hspells, fun _ => find?_eq_iff_stands hspells⟩
  · exact find?_append_of_first ⟨hfirst.ne_nil, hslash⟩ hfront hfirst back
  · by_cases hname : name = []
    · rw [hname, find?_nil, find?_nil]
    · exact find?_append_of_none ⟨hname, hslash⟩ hfront hnone back

/-- The first of three entries does not hold the name, and the second, which is empty, does. -/
theorem find?_stands_empty_entry :
    let isRegular (path : Path) : Bool := ["/w/tool".toList, "/w/b/tool".toList].contains path
    Spells (some "a".toList) ["a"] ∧
      (∀ entry ∈ ["a".toList], ¬ Holds isRegular "/w" "tool" entry) ∧
      find? isRegular "/w" "tool" (some "a::b".toList) =
        find? isRegular "/w" "tool" (some ":b".toList) ∧
      First isRegular "/w" "tool" [[], "b"] [] ∧
      find? isRegular "/w" "tool" (some ":b".toList) = some "/w/tool".toList ∧
      isRegular "/w/tool" = true := by
  intro isRegular
  obtain ⟨-, hempty, hregular, -, hjoined⟩ := find?_stands isRegular "/w" "tool"
  have hspells : Spells (some "a".toList) ["a"] := spells_iff.mpr rfl
  have hnone : ∀ entry ∈ ["a".toList], ¬ Holds isRegular "/w" "tool" entry := by
    simp only [List.forall_mem_singleton, Holds]
    decide
  have hfirst : First isRegular "/w" "tool" [[], "b"] [] :=
    ⟨[], ["b"], rfl, ⟨by decide, by decide⟩, List.forall_mem_nil _⟩
  have hempties : Spells (some []) [[]] := spells_iff.mpr rfl
  have hlookup := (hjoined (by decide) [] "b" [[]] hempties).1 []
    ⟨[], [], rfl, ⟨by decide, by decide⟩, List.forall_mem_nil _⟩
  rw [hempty rfl] at hlookup
  exact ⟨hspells, hnone, (hjoined (by decide) "a" ":b" ["a"] hspells).2 hnone, hfirst, hlookup,
    hregular _ _ hlookup⟩

end Lookup

end CommandShell
