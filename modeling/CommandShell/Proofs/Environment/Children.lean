import CommandShell.Environment
import CommandShell.Platform
import CommandShell.Proofs.Text.Utf8

/-!
# What children find in the environment

The shell takes the first value of a name and a child the last one. They agree on every name with
at most one value, and each change leaves a name that it touches with as many values as there were,
or one, or none. So only a block that repeats a name can set them apart, until the name is unset:
whatever the shell sets it to in the meantime, the child finds the value that was inherited last.
-/

namespace CommandShell

/-- The values of a name, in their order. -/
def valuesOf {Name Value : Type} [BEq Name] (entries : List (Name × Value)) (name : Name) :
    List Value :=
  (entries.filter (·.1 == name)).map (·.2)

theorem valuesOf_cons {Name Value : Type} [BEq Name] (entry : Name × Value)
    (rest : List (Name × Value)) (name : Name) :
    valuesOf (entry :: rest) name =
      if entry.1 == name then entry.2 :: valuesOf rest name else valuesOf rest name := by
  rw [valuesOf, List.filter_cons]
  split <;> rfl

section Filter

variable {Name Value : Type} [BEq Name] [LawfulBEq Name] (keeps : Name → Bool) {name : Name}

/-- What is left out by the name leaves the values of other names. -/
theorem valuesOf_filter_of_keeps (entries : List (Name × Value)) (hkept : keeps name = true) :
    valuesOf (entries.filter (keeps ·.1)) name = valuesOf entries name := by
  rw [valuesOf, valuesOf, List.filter_filter]
  congr 1
  apply List.filter_congr
  intro entry _
  by_cases hname : entry.1 = name
  · rw [hname, hkept, Bool.and_true]
  · rw [beq_false_of_ne hname, Bool.false_and]

theorem valuesOf_filter_of_not_keeps (entries : List (Name × Value)) (hleft : keeps name = false) :
    valuesOf (entries.filter (keeps ·.1)) name = [] := by
  rw [valuesOf, List.filter_filter, List.map_eq_nil_iff, List.filter_eq_nil_iff]
  intro entry _ hboth
  obtain ⟨hname, hkept⟩ := Bool.and_eq_true_iff.mp hboth
  rw [beq_iff_eq.mp hname, hleft] at hkept
  cases hkept

end Filter

theorem valuesOf_eq_nil_iff {entries : List (Bytes × Bytes)} {name : Bytes} :
    valuesOf entries name = [] ↔ entries.any (·.1 == name) = false := by
  rw [valuesOf, List.map_eq_nil_iff, List.filter_eq_nil_iff, List.any_eq_false]

/-- Of the values of a name the last one reaches a child. -/
theorem mem_lastBindings_iff {bindings : List (Bytes × Bytes)} {entry : Bytes × Bytes} :
    entry ∈ lastBindings bindings ↔ (valuesOf bindings entry.1).getLast? = some entry.2 := by
  induction bindings with
  | nil => simp [lastBindings, valuesOf]
  | cons first rest ih =>
      rw [lastBindings, valuesOf_cons]
      by_cases hrepeated : rest.any (·.1 == first.1) = true
      · rw [if_pos hrepeated, ih]
        by_cases hname : first.1 = entry.1
        · have hfilled : valuesOf rest entry.1 ≠ [] := by
            rw [Ne, valuesOf_eq_nil_iff, ← hname, hrepeated]
            exact nofun
          rw [if_pos (beq_iff_eq.mpr hname), List.getLast?_cons_of_ne_nil hfilled]
        · rw [if_neg (by simpa using hname)]
      · rw [if_neg hrepeated, List.mem_cons, ih]
        by_cases hname : first.1 = entry.1
        · have hnone : valuesOf rest entry.1 = [] := by
            rw [valuesOf_eq_nil_iff, ← hname]
            exact Bool.eq_false_iff.mpr hrepeated
          rw [if_pos (beq_iff_eq.mpr hname), hnone, List.getLast?_singleton, Option.some.injEq]
          simp [Prod.ext_iff, hname, eq_comm]
        · have hother : entry ≠ first := fun hsame => hname (hsame ▸ rfl)
          rw [if_neg (by simpa using hname), or_iff_right hother]

namespace Bindings

variable {bindings : Bindings} {name other value : Text}

theorem get?_eq_head? (bindings : Bindings) (name : Text) :
    bindings.get? name = (valuesOf bindings.toList name).head? := by
  rw [get?, valuesOf, List.head?_map, List.head?_filter]

theorem valuesOf_put (bindings : Bindings) (name value : Text) :
    valuesOf (bindings.put name value).toList name =
      value :: (valuesOf bindings.toList name).tail := by
  obtain ⟨entries⟩ := bindings
  simp only [put, valuesOf]
  induction entries with
  | nil => simp [putEntry]
  | cons entry rest ih =>
      by_cases hsame : entry.1 = name
      · simp [putEntry, hsame]
      · simpa [putEntry, hsame] using ih

theorem valuesOf_put_of_ne (hne : other ≠ name) (value : Text) :
    valuesOf (bindings.put name value).toList other = valuesOf bindings.toList other := by
  obtain ⟨entries⟩ := bindings
  simp only [put, valuesOf]
  induction entries with
  | nil => simp [putEntry, hne.symm]
  | cons entry rest ih =>
      by_cases hsame : entry.1 = name
      · simp [putEntry, hsame, hne.symm]
      · by_cases hfound : entry.1 = other
        · simpa [putEntry, hsame, hfound, hne] using ih
        · simpa [putEntry, hsame, hfound] using ih

theorem valuesOf_erase (bindings : Bindings) (name : Text) :
    valuesOf (bindings.erase name).toList name = [] :=
  valuesOf_filter_of_not_keeps (· != name) bindings.toList (bne_self_eq_false name)

theorem valuesOf_erase_of_ne (hne : other ≠ name) :
    valuesOf (bindings.erase name).toList other = valuesOf bindings.toList other :=
  valuesOf_filter_of_keeps (· != name) bindings.toList (bne_iff_ne.mpr hne)

end Bindings

namespace Environment

/-- What a command can do to the environment. -/
inductive Change
  | set (name value : Text)
  | unset (name : Text)
  deriving DecidableEq

def Change.name : Change → Text
  | .set name _ | .unset name => name

def change (environment : Environment) : Change → Environment
  | .set name value => environment.set name value
  | .unset name => environment.unset name

def changed (environment : Environment) (changes : List Change) : Environment :=
  changes.foldl change environment

/-- An entry of a block as commands see it. -/
def readable? (entry : Bytes × Bytes) : Option (Text × Text) :=
  match Utf8.decode? entry.1, Utf8.decode? entry.2 with
  | some name, some value => some (name, value)
  | _, _ => none

/-! ### What is inherited -/

theorem inherit_eq (environment : Environment) (entry : Bytes × Bytes) :
    environment.inherit entry =
      { environment with
        bindings := ⟨environment.bindings.toList ++ (readable? entry).toList⟩
        hidden := environment.hidden ++ [entry].filter fun entry => (readable? entry).isNone } := by
  unfold inherit readable?
  split <;> simp_all

theorem foldl_inherit (environment : Environment) (block : List (Bytes × Bytes)) :
    block.foldl inherit environment =
      { environment with
        bindings := ⟨environment.bindings.toList ++ block.filterMap readable?⟩
        hidden := environment.hidden ++ block.filter fun entry => (readable? entry).isNone } := by
  induction block generalizing environment with
  | nil => simp
  | cons entry rest ih =>
      rw [List.foldl_cons, ih, inherit_eq]
      cases hentry : readable? entry <;> simp [hentry]

theorem capture_eq (block : List (Bytes × Bytes)) (directory : Text) :
    capture block directory =
      { bindings := ⟨block.filterMap readable?⟩
        hidden := block.filter fun entry => (readable? entry).isNone
        directory } := by
  rw [capture, foldl_inherit]
  rfl

/-! ### What changes leave -/

theorem hidden_change (environment : Environment) (step : Change) :
    (environment.change step).hidden =
      environment.hidden.filter (·.1 != Utf8.encode step.name) := by
  cases step <;> rfl

theorem changed_cons (environment : Environment) (step : Change) (rest : List Change) :
    environment.changed (step :: rest) = (environment.change step).changed rest := rfl

theorem hidden_changed (environment : Environment) (changes : List Change) :
    (environment.changed changes).hidden =
      environment.hidden.filter fun entry =>
        changes.all fun step => entry.1 != Utf8.encode step.name := by
  induction changes generalizing environment with
  | nil => exact (List.filter_eq_self.mpr fun _ _ => rfl).symm
  | cons step rest ih =>
      rw [changed_cons, ih, hidden_change, List.filter_filter]
      simp [Bool.and_comm]

/-- The values that the shell has for a name. -/
def values (environment : Environment) (name : Text) : List Text :=
  valuesOf environment.bindings.toList name

theorem values_change_of_ne (environment : Environment) {step : Change} {name : Text}
    (hne : name ≠ step.name) : (environment.change step).values name = environment.values name := by
  cases step with
  | set other value => exact Bindings.valuesOf_put_of_ne hne value
  | unset other => exact Bindings.valuesOf_erase_of_ne hne

theorem values_set (environment : Environment) (name value : Text) :
    (environment.set name value).values name = value :: (environment.values name).tail :=
  Bindings.valuesOf_put _ name value

theorem values_unset (environment : Environment) (name : Text) :
    (environment.unset name).values name = [] :=
  Bindings.valuesOf_erase _ name

theorem length_values_change_le {environment : Environment} {name : Text} {step : Change}
    (hsingle : (environment.values name).length ≤ 1 ∨ step = .unset name) :
    ((environment.change step).values name).length ≤ 1 := by
  by_cases hname : name = step.name
  · cases step with
    | set other value =>
        obtain rfl : name = other := hname
        obtain hsingle | hnone := hsingle
        · rw [change, values_set, List.length_cons, List.length_tail]
          omega
        · cases hnone
    | unset other =>
        obtain rfl : name = other := hname
        rw [change, values_unset]
        exact Nat.zero_le 1
  · rw [values_change_of_ne environment hname]
    apply hsingle.resolve_right
    rintro rfl
    exact hname rfl

theorem length_values_changed_le {environment : Environment} {name : Text} {changes : List Change}
    (hsingle : (environment.values name).length ≤ 1 ∨ .unset name ∈ changes) :
    ((environment.changed changes).values name).length ≤ 1 := by
  induction changes generalizing environment with
  | nil => exact hsingle.resolve_right List.not_mem_nil
  | cons step rest ih =>
      rw [changed_cons]
      apply ih
      by_cases hlater : .unset name ∈ rest
      · exact .inr hlater
      · refine .inl (length_values_change_le (hsingle.imp_right fun hunset => ?_))
        exact ((List.mem_cons.mp hunset).resolve_right hlater).symm

/-- No name has several values. -/
def Single (environment : Environment) : Prop :=
  ∀ name, (environment.values name).length ≤ 1

theorem Single.changed {environment : Environment} (hsingle : environment.Single)
    (changes : List Change) : (environment.changed changes).Single :=
  fun name => length_values_changed_le (.inl (hsingle name))

/-- Setting a name with several values replaces the first of them. -/
theorem values_change_of_repeated {environment : Environment} {name : Text} {step : Change}
    (hrepeated : 2 ≤ (environment.values name).length) (hkept : step ≠ .unset name) :
    2 ≤ ((environment.change step).values name).length ∧
      ((environment.change step).values name).getLast? = (environment.values name).getLast? := by
  by_cases hname : name = step.name
  · cases step with
    | set other value =>
        obtain rfl : name = other := hname
        rw [change, values_set]
        match environment.values name, hrepeated with
        | _ :: second :: rest, _ => simp
    | unset other =>
        obtain rfl : name = other := hname
        exact absurd rfl hkept
  · rw [values_change_of_ne environment hname]
    exact ⟨hrepeated, rfl⟩

theorem getLast?_values_changed {environment : Environment} {name : Text} {changes : List Change}
    (hrepeated : 2 ≤ (environment.values name).length) (hkept : .unset name ∉ changes) :
    ((environment.changed changes).values name).getLast? =
      (environment.values name).getLast? := by
  induction changes generalizing environment with
  | nil => rfl
  | cons step rest ih =>
      obtain ⟨hstep, hrest⟩ := not_or.mp fun hunset => hkept (List.mem_cons.mpr hunset)
      obtain ⟨hnext, hlast⟩ := values_change_of_repeated hrepeated (Ne.symm hstep)
      rw [changed_cons, ih hnext hrest, hlast]

/-! ### What children find -/

theorem childValue?_eq_getLast? (environment : Environment) (name : Bytes) :
    environment.childValue? name = (valuesOf environment.childBindings name).getLast? := by
  rw [childValue?, ← List.getLast?_filter, valuesOf, List.getLast?_map]

theorem childValue?_eq (environment : Environment) (name : Bytes) :
    environment.childValue? name =
      (valuesOf (environment.bindings.toList.map fun (name, value) =>
        (Utf8.encode name, Utf8.encode value)) name).getLast?.or
        (valuesOf environment.hidden name).getLast? := by
  rw [childValue?_eq_getLast?, childBindings, valuesOf, List.filter_append, List.map_append,
    List.getLast?_append, ← valuesOf, ← valuesOf]

/-- A child finds the bindings that reach it. -/
theorem mem_lastBindings_childBindings_iff {environment : Environment} {entry : Bytes × Bytes} :
    entry ∈ lastBindings environment.childBindings ↔
      environment.childValue? entry.1 = some entry.2 := by
  rw [mem_lastBindings_iff, childValue?_eq_getLast?]

theorem mem_childBindings_of_childValue? {environment : Environment} {name value : Bytes}
    (hfound : environment.childValue? name = some value) :
    (name, value) ∈ environment.childBindings := by
  rw [childValue?_eq_getLast?] at hfound
  obtain ⟨entry, hentry, rfl⟩ := List.mem_map.mp (List.mem_of_getLast? hfound)
  obtain ⟨hmember, hname⟩ := List.mem_filter.mp hentry
  rwa [← beq_iff_eq.mp hname]

theorem valuesOf_encode (entries : List (Text × Text)) (name : Text) :
    valuesOf (entries.map fun (name, value) => (Utf8.encode name, Utf8.encode value))
        (Utf8.encode name) =
      (valuesOf entries name).map Utf8.encode := by
  rw [valuesOf, valuesOf, List.filter_map, List.map_map, List.map_map]
  congr 1
  apply List.filter_congr
  rintro ⟨other, value⟩ _
  exact Bool.eq_iff_iff.mpr (by simp [Utf8.encode_injective.eq_iff])

theorem childValue?_encode (environment : Environment) (name : Text) :
    environment.childValue? (Utf8.encode name) =
      ((environment.values name).getLast?.map Utf8.encode).or
        (valuesOf environment.hidden (Utf8.encode name)).getLast? := by
  rw [childValue?_eq, valuesOf_encode, List.getLast?_map]
  rfl

theorem childValue?_of_values_eq_nil {environment : Environment} {name : Text}
    (hnone : environment.values name = []) :
    environment.childValue? (Utf8.encode name) =
      (valuesOf environment.hidden (Utf8.encode name)).getLast? := by
  rw [childValue?_encode, hnone]
  rfl

theorem childValue?_of_unseen {environment : Environment} {name : Bytes}
    (hunseen : ∀ other, name = Utf8.encode other → environment.get? other = none) :
    environment.childValue? name = (valuesOf environment.hidden name).getLast? := by
  have hnone : valuesOf (environment.bindings.toList.map fun (name, value) =>
      (Utf8.encode name, Utf8.encode value)) name = [] := by
    rw [valuesOf, List.map_eq_nil_iff, List.filter_eq_nil_iff, List.forall_mem_map]
    rintro ⟨other, value⟩ hother hfound
    have hget := hunseen other (beq_iff_eq.mp hfound).symm
    rw [get?, Bindings.get?, Option.map_eq_none_iff, List.find?_eq_none] at hget
    exact hget _ hother (beq_self_eq_true other)
  rw [childValue?_eq, hnone]
  rfl

/-- Both sides see the one value that there is. -/
theorem childValue?_of_get? {environment : Environment} {name value : Text}
    (hsingle : (environment.values name).length ≤ 1) (hget : environment.get? name = some value) :
    environment.childValue? (Utf8.encode name) = some (Utf8.encode value) := by
  rw [get?, Bindings.get?_eq_head?, ← values, List.head?_eq_some_iff] at hget
  obtain ⟨others, hvalues⟩ := hget
  rw [hvalues, List.length_cons] at hsingle
  have hnone : others = [] := List.length_eq_zero_iff.mp (by omega)
  rw [childValue?_encode, hvalues, hnone]
  rfl

theorem get?_set (environment : Environment) (name value : Text) :
    (environment.set name value).get? name = some value :=
  Bindings.get?_put_self _ name value

theorem valuesOf_hidden_reveal (environment : Environment) {name : Text} {found : Bytes}
    (hne : found ≠ Utf8.encode name) :
    valuesOf (environment.reveal name).hidden found = valuesOf environment.hidden found :=
  valuesOf_filter_of_keeps (· != Utf8.encode name) environment.hidden (bne_iff_ne.mpr hne)

theorem childValue?_set_of_ne (environment : Environment) {name : Text} (value : Text)
    {found : Bytes} (hne : found ≠ Utf8.encode name) :
    (environment.set name value).childValue? found = environment.childValue? found := by
  have hhidden : valuesOf (environment.set name value).hidden found =
      valuesOf environment.hidden found := environment.valuesOf_hidden_reveal hne
  by_cases hspelled : ∃ other, found = Utf8.encode other
  · obtain ⟨other, rfl⟩ := hspelled
    have hother : other ≠ name := fun hsame => hne (hsame ▸ rfl)
    have hvalues : (environment.set name value).values other = environment.values other :=
      Bindings.valuesOf_put_of_ne hother value
    rw [childValue?_encode, childValue?_encode, hvalues, hhidden]
  · have hunseen : ∀ {later : Environment} (other : Text), found = Utf8.encode other →
        later.get? other = none := fun other hsame => absurd ⟨other, hsame⟩ hspelled
    rw [childValue?_of_unseen hunseen, childValue?_of_unseen hunseen, hhidden]

/-- Of several values the first one is replaced, and no child finds that. -/
theorem childValue?_set_of_repeated {environment : Environment} {name : Text}
    (hrepeated : 2 ≤ (environment.values name).length) (value : Text) (found : Bytes) :
    (environment.set name value).childValue? found = environment.childValue? found := by
  by_cases hname : found = Utf8.encode name
  · have hlast : ((environment.set name value).values name).getLast? =
        (environment.values name).getLast? := by
      have hkept : Change.set name value ≠ .unset name := nofun
      exact (values_change_of_repeated hrepeated hkept).2
    have hfilled : environment.values name ≠ [] := by
      intro hnone
      rw [hnone] at hrepeated
      exact absurd hrepeated (by decide)
    rw [hname, childValue?_encode, childValue?_encode, hlast,
      List.getLast?_eq_some_getLast hfilled]
    rfl
  · exact environment.childValue?_set_of_ne value hname

theorem childValue?_set_of_single {environment : Environment} {name : Text}
    (hsingle : (environment.values name).length ≤ 1) (value : Text) :
    (environment.set name value).childValue? (Utf8.encode name) = some (Utf8.encode value) := by
  have hset : ((environment.change (.set name value)).values name).length ≤ 1 :=
    length_values_change_le (.inl hsingle)
  exact childValue?_of_get? hset (get?_set environment name value)

theorem valuesOf_hidden_unset (environment : Environment) (name : Text) :
    valuesOf (environment.unset name).hidden (Utf8.encode name) = [] :=
  valuesOf_filter_of_not_keeps (· != Utf8.encode name) environment.hidden
    (bne_self_eq_false (Utf8.encode name))

/-- The name was inherited with one value at most, or it has been unset in the meantime. -/
def Settled (block : List (Bytes × Bytes)) (changes : List Change) (name : Text) : Prop :=
  (valuesOf (block.filterMap readable?) name).length ≤ 1 ∨ .unset name ∈ changes

instance (block : List (Bytes × Bytes)) (changes : List Change) (name : Text) :
    Decidable (Settled block changes name) :=
  inferInstanceAs (Decidable (_ ∨ _))

theorem values_capture (block : List (Bytes × Bytes)) (directory : Text) (name : Text) :
    (capture block directory).values name = valuesOf (block.filterMap readable?) name := by
  rw [capture_eq, values]

theorem mem_hidden_changed {block : List (Bytes × Bytes)} {changes : List Change}
    {entry : Bytes × Bytes} (hentry : entry ∈ block) (hhidden : readable? entry = none)
    (hkept : ∀ step ∈ changes, entry.1 ≠ Utf8.encode step.name) (directory : Text) :
    entry ∈ ((capture block directory).changed changes).hidden := by
  rw [hidden_changed, capture_eq, List.mem_filter, List.mem_filter, List.all_eq_true]
  exact ⟨⟨hentry, Option.isNone_iff_eq_none.mpr hhidden⟩,
    fun step hstep => bne_iff_ne.mpr (hkept step hstep)⟩

theorem valuesOf_hidden_changed {block : List (Bytes × Bytes)} {changes : List Change}
    {name : Bytes} (hkept : ∀ step ∈ changes, name ≠ Utf8.encode step.name) (directory : Text) :
    valuesOf ((capture block directory).changed changes).hidden name =
      valuesOf (block.filter fun entry => (readable? entry).isNone) name := by
  have hall : (changes.all fun step => name != Utf8.encode step.name) = true :=
    List.all_eq_true.mpr fun step hstep => bne_iff_ne.mpr (hkept step hstep)
  rw [hidden_changed, capture_eq]
  exact valuesOf_filter_of_keeps (fun name => changes.all fun step => name != Utf8.encode step.name)
    _ hall

/-- A child finds what the shell has for a name that is settled, the value inherited last for any
other, and nothing for a name that was just unset. An entry that is not text stays as it is as long
as its name is not touched, and is found unless the shell has a value for that name. -/
theorem childValue?_after_changes (block : List (Bytes × Bytes)) (directory : Text)
    (changes : List Change) :
    let environment := (capture block directory).changed changes
    (∀ name, Settled block changes name →
        (∀ value, environment.get? name = some value →
          environment.childValue? (Utf8.encode name) = some (Utf8.encode value)) ∧
        ∀ value, (environment.set name value).childValue? (Utf8.encode name) =
          some (Utf8.encode value)) ∧
      (∀ name, ¬ Settled block changes name → environment.childValue? (Utf8.encode name) =
        (valuesOf (block.filterMap readable?) name).getLast?.map Utf8.encode) ∧
      (∀ name, (environment.unset name).childValue? (Utf8.encode name) = none) ∧
      ∀ entry ∈ block, readable? entry = none →
        (∀ step ∈ changes, entry.1 ≠ Utf8.encode step.name) →
          entry ∈ environment.childBindings ∧
            ((∀ name, entry.1 = Utf8.encode name → environment.get? name = none) →
              environment.childValue? entry.1 = (valuesOf
                (block.filter fun other => (readable? other).isNone) entry.1).getLast?) := by
  intro environment
  refine ⟨fun name hsettled => ?_, fun name hunsettled => ?_, fun name => ?_,
    fun entry hentry hhidden hkept => ⟨?_, fun hunseen => ?_⟩⟩
  · have hsingle : ((capture block directory).values name).length ≤ 1 ∨ .unset name ∈ changes :=
      values_capture block directory name ▸ hsettled
    have hvalues := length_values_changed_le hsingle
    exact ⟨fun value hget => childValue?_of_get? hvalues hget, childValue?_set_of_single hvalues⟩
  · obtain ⟨hrepeated, hkept⟩ := not_or.mp hunsettled
    rw [← values_capture block directory] at hrepeated ⊢
    have hne : (capture block directory).values name ≠ [] := by
      intro hnone
      exact hrepeated (hnone ▸ Nat.zero_le 1)
    rw [childValue?_encode, getLast?_values_changed (Nat.lt_of_not_le hrepeated) hkept,
      List.getLast?_eq_some_getLast hne]
    rfl
  · rw [childValue?_of_values_eq_nil (values_unset environment name), valuesOf_hidden_unset]
    rfl
  · exact List.mem_append_left _ (mem_hidden_changed hentry hhidden hkept directory)
  · rw [childValue?_of_unseen hunseen, valuesOf_hidden_changed hkept]

theorem childValue?_after_changes_mixed :
    let block := [("A", "1"), ("A", "2"), ("B", "é")].map fun (name, value) =>
      (Utf8.encode name.toList, Utf8.encode value.toList)
    let raw := (Utf8.encode "R".toList, [255])
    let changes := [.set "A" "new", .unset "B", .set "B" "y"]
    let environment := (capture (block ++ [raw]) "/").changed changes
    ((Settled (block ++ [raw]) changes "B" ∧ environment.get? "B" = some "y".toList) ∧
        environment.childValue? (Utf8.encode "B".toList) = some (Utf8.encode "y".toList)) ∧
      (¬ Settled (block ++ [raw]) changes "A" ∧
        environment.childValue? (Utf8.encode "A".toList) =
          (valuesOf ((block ++ [raw]).filterMap readable?) "A".toList).getLast?.map Utf8.encode) ∧
      (readable? raw = none ∧ (∀ step ∈ changes, raw.1 ≠ Utf8.encode step.name) ∧
          ∀ name, raw.1 = Utf8.encode name → environment.get? name = none) ∧
        environment.childValue? raw.1 = (valuesOf
          ((block ++ [raw]).filter fun other => (readable? other).isNone) raw.1).getLast? := by
  intro block raw changes environment
  obtain ⟨hsettled, hunsettled, -, hhidden⟩ :=
    childValue?_after_changes (block ++ [raw]) "/" changes
  have hone : Settled (block ++ [raw]) changes "B" := by decide +kernel
  have hget : environment.get? "B" = some "y".toList := by decide +kernel
  have htwo : ¬ Settled (block ++ [raw]) changes "A" := by decide +kernel
  have hraw : readable? raw = none := by decide +kernel
  have hkept : ∀ step ∈ changes, raw.1 ≠ Utf8.encode step.name := by decide +kernel
  have hunseen : ∀ name, raw.1 = Utf8.encode name → environment.get? name = none := by
    intro name hname
    rw [← Utf8.encode_injective hname]
    decide +kernel
  exact ⟨⟨⟨hone, hget⟩, (hsettled _ hone).1 _ hget⟩, ⟨htwo, hunsettled _ htwo⟩,
    ⟨hraw, hkept, hunseen⟩, (hhidden raw (by simp) hraw hkept).2 hunseen⟩

/-- A name that is inherited twice is set for the shell and not for its children. -/
theorem childValue?_set_repeated :
    let block := ["A=1", "A=2=x"].filterMap fun line => entry? (Utf8.encode line.toList)
    let environment := (capture block "/").set "A" "new"
    environment.get? "A" = some "new".toList ∧
      environment.childValue? (Utf8.encode "A".toList) = some (Utf8.encode "2=x".toList) := by
  decide +kernel

end Environment

end CommandShell
