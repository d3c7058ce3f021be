import CommandShell.Proofs.Bindings.Order
import CommandShell.Proofs.Environment.Children
import Mathlib.Data.List.Induction

/-!
# The variables as the history of their changes

What the variables are, and in which order they stand, can be told from the changes alone. The value
of a name is that of its last change, unless that takes the name away. Names stand in the order in
which they came to where they are: a name that is set again stays there, and only one that was taken
away in the meantime comes behind all others.
-/

namespace CommandShell.Environment

/-- The last change of the name sets it to the value. -/
def Binds (changes : List Change) (name value : Text) : Prop :=
  ∃ front back, changes = front ++ .set name value :: back ∧ ∀ later ∈ back, later.name ≠ name

/-- The change with so many others before it brought the name to its place: the name had no value
before, and is not taken away behind it. -/
def Inserts (changes : List Change) (name : Text) (time : Nat) : Prop :=
  ∃ front value back, changes = front ++ .set name value :: back ∧ front.length = time ∧
    (∀ held, ¬ Binds front name held) ∧ .unset name ∉ back

def InsertedBefore (changes : List Change) (first second : Text) : Prop :=
  ∃ earlier later, Inserts changes first earlier ∧ Inserts changes second later ∧ earlier < later

variable {changes : List Change} {step : Change} {name value : Text} {time : Nat}

/-! ### One change more -/

theorem binds_concat :
    Binds (changes ++ [step]) name value ↔
      step = .set name value ∨ step.name ≠ name ∧ Binds changes name value := by
  constructor
  · rintro ⟨front, back, hchanges, hback⟩
    rcases List.eq_nil_or_concat back with rfl | ⟨rest, last, rfl⟩
    · obtain ⟨-, hstep⟩ := List.append_inj' hchanges rfl
      exact .inl (List.singleton_inj.mp hstep)
    · rw [List.concat_eq_append, ← List.cons_append, ← List.append_assoc] at hchanges
      obtain ⟨hfront, hstep⟩ := List.append_inj' hchanges rfl
      obtain rfl := List.singleton_inj.mp hstep
      refine .inr ⟨hback step (by simp), front, rest, hfront, fun later hlater => ?_⟩
      exact hback later (by simp [hlater])
  · rintro (rfl | ⟨hother, front, back, rfl, hback⟩)
    · exact ⟨changes, [], rfl, nofun⟩
    · refine ⟨front, back ++ [step], by simp, fun later hlater => ?_⟩
      rcases List.mem_append.mp hlater with hlater | hlater
      · exact hback later hlater
      · rwa [List.mem_singleton.mp hlater]

theorem inserts_concat :
    Inserts (changes ++ [step]) name time ↔
      (∃ value, step = .set name value) ∧ (∀ held, ¬ Binds changes name held) ∧
          time = changes.length ∨
        step ≠ .unset name ∧ Inserts changes name time := by
  constructor
  · rintro ⟨front, value, back, hchanges, rfl, hnew, hkept⟩
    rcases List.eq_nil_or_concat back with rfl | ⟨rest, last, rfl⟩
    · obtain ⟨rfl, hstep⟩ := List.append_inj' hchanges rfl
      exact .inl ⟨⟨value, List.singleton_inj.mp hstep⟩, hnew, rfl⟩
    · rw [List.concat_eq_append, ← List.cons_append, ← List.append_assoc] at hchanges
      obtain ⟨hfront, hstep⟩ := List.append_inj' hchanges rfl
      obtain rfl := List.singleton_inj.mp hstep
      rw [List.concat_eq_append, List.mem_append, not_or, List.mem_singleton] at hkept
      exact .inr ⟨Ne.symm hkept.2, front, value, rest, hfront, rfl, hnew, hkept.1⟩
  · rintro (⟨⟨value, rfl⟩, hnew, rfl⟩ | ⟨hstep, front, value, back, rfl, rfl, hnew, hkept⟩)
    · exact ⟨changes, value, [], rfl, rfl, hnew, List.not_mem_nil⟩
    · refine ⟨front, value, back ++ [step], by simp, rfl, hnew, ?_⟩
      rw [List.mem_append, not_or, List.mem_singleton]
      exact ⟨hkept, Ne.symm hstep⟩

/-! ### When a name came to its place -/

theorem Inserts.lt_length (hinserts : Inserts changes name time) : time < changes.length := by
  obtain ⟨front, value, back, rfl, rfl, -⟩ := hinserts
  simp

/-- The names with a place are those with a value. -/
theorem exists_inserts_iff :
    (∃ time, Inserts changes name time) ↔ ∃ value, Binds changes name value := by
  induction changes using List.reverseRecOn with
  | nil => simp [Inserts, Binds]
  | append_singleton changes step ih =>
      simp only [inserts_concat, binds_concat]
      constructor
      · rintro ⟨time, ⟨⟨value, rfl⟩, -⟩ | ⟨hstep, hinserts⟩⟩
        · exact ⟨value, .inl rfl⟩
        · obtain ⟨value, hbinds⟩ := ih.mp ⟨time, hinserts⟩
          by_cases hname : step.name = name
          · cases step with
            | set other new =>
                obtain rfl : other = name := hname
                exact ⟨new, .inl rfl⟩
            | unset other =>
                obtain rfl : other = name := hname
                exact absurd rfl hstep
          · exact ⟨value, .inr ⟨hname, hbinds⟩⟩
      · rintro ⟨value, rfl | ⟨hname, hbinds⟩⟩
        · by_cases hheld : ∃ held, Binds changes name held
          · obtain ⟨time, hinserts⟩ := ih.mpr hheld
            exact ⟨time, .inr ⟨nofun, hinserts⟩⟩
          · exact ⟨changes.length, .inl ⟨⟨value, rfl⟩, not_exists.mp hheld, rfl⟩⟩
        · obtain ⟨time, hinserts⟩ := ih.mpr ⟨value, hbinds⟩
          refine ⟨time, .inr ⟨?_, hinserts⟩⟩
          rintro rfl
          exact hname rfl

/-- A name that came to its place before has a value, so it does not come there again. -/
theorem not_inserts_of_new (hnew : ∀ held, ¬ Binds changes name held) :
    ¬ Inserts changes name time := by
  intro hinserts
  obtain ⟨held, hheld⟩ := exists_inserts_iff.mp ⟨time, hinserts⟩
  exact hnew held hheld

theorem Inserts.unique {other : Nat} (hinserts : Inserts changes name time)
    (hother : Inserts changes name other) : time = other := by
  induction changes using List.reverseRecOn with
  | nil => exact absurd hinserts.lt_length (Nat.not_lt_zero time)
  | append_singleton changes step ih =>
      rw [inserts_concat] at hinserts hother
      rcases hinserts with ⟨-, hnew, rfl⟩ | ⟨-, hinserts⟩ <;>
        rcases hother with ⟨-, hnew', rfl⟩ | ⟨-, hother⟩
      · rfl
      · exact absurd hother (not_inserts_of_new hnew)
      · exact absurd hinserts (not_inserts_of_new hnew')
      · exact ih hinserts hother

theorem InsertedBefore.concat {first second : Text} (hbefore : InsertedBefore changes first second)
    (hfirst : step ≠ .unset first) (hsecond : step ≠ .unset second) :
    InsertedBefore (changes ++ [step]) first second := by
  obtain ⟨earlier, later, hearlier, hlater, hlt⟩ := hbefore
  exact ⟨earlier, later, inserts_concat.mpr (.inr ⟨hfirst, hearlier⟩),
    inserts_concat.mpr (.inr ⟨hsecond, hlater⟩), hlt⟩

/-! ### A store made by changes -/

/-- Pairs make the same store as their changes do where there are none. -/
theorem ofPairs_eq_changed (pairs : List (Text × Text)) (directory : Text) :
    ofPairs pairs directory =
      (ofPairs [] directory).changed (pairs.map fun entry => .set entry.1 entry.2) := by
  have hfold (bindings : Bindings) :
      ({ bindings, hidden := [], directory } : Environment).changed
          (pairs.map fun entry => .set entry.1 entry.2) =
        { bindings := pairs.foldl (fun bindings entry => bindings.put entry.1 entry.2) bindings
          hidden := []
          directory } := by
    induction pairs generalizing bindings with
    | nil => rfl
    | cons entry rest ih => exact ih (bindings.put entry.1 entry.2)
  exact (hfold Bindings.empty).symm

theorem changed_append (environment : Environment) (front back : List Change) :
    environment.changed (front ++ back) = (environment.changed front).changed back :=
  List.foldl_append

theorem changed_concat (environment : Environment) (changes : List Change) (step : Change) :
    environment.changed (changes ++ [step]) = (environment.changed changes).change step :=
  changed_append environment changes [step]

theorem get?_change_of_ne (environment : Environment) (hname : name ≠ step.name) :
    (environment.change step).get? name = environment.get? name := by
  rw [get?, Bindings.get?_eq_head?, ← values, values_change_of_ne environment hname, values,
    ← Bindings.get?_eq_head?, ← get?]

theorem names_unset (environment : Environment) (name : Text) :
    (environment.unset name).bindings.names = environment.bindings.names.filter (· != name) :=
  Bindings.names_erase environment.bindings name

section Changed

variable {environment : Environment} (hempty : environment.bindings = Bindings.empty)
include hempty

theorem get?_changed_iff :
    (environment.changed changes).get? name = some value ↔ Binds changes name value := by
  induction changes using List.reverseRecOn with
  | nil =>
      have hnone : ¬ Binds [] name value := by simp [Binds]
      have hget : environment.get? name = none := by rw [get?, hempty]; rfl
      simp [changed, hget, hnone]
  | append_singleton changes step ih =>
      rw [changed_concat, binds_concat]
      by_cases hname : step.name = name
      · cases step with
        | set other new =>
            obtain rfl : other = name := hname
            simp [change, get?_set, Change.name]
        | unset other =>
            obtain rfl : other = name := hname
            have hget : ((environment.changed changes).unset other).get? other = none :=
              Bindings.get?_erase_self _ other
            simp [change, hget, Change.name]
      · have hstep : step ≠ .set name value := by
          rintro rfl
          exact hname rfl
        rw [get?_change_of_ne _ (Ne.symm hname), ih]
        simp [hstep, hname]

theorem mem_names_changed_iff :
    name ∈ (environment.changed changes).bindings.names ↔ ∃! time, Inserts changes name time := by
  have hbound : name ∈ (environment.changed changes).bindings.names ↔
      ∃ time, Inserts changes name time := by
    rw [Bindings.mem_names_iff, exists_inserts_iff]
    exact exists_congr fun value => get?_changed_iff hempty
  rw [hbound]
  constructor
  · rintro ⟨time, hinserts⟩
    exact ⟨time, hinserts, fun other hother => hother.unique hinserts⟩
  · exact ExistsUnique.exists

theorem nodup_names_changed (changes : List Change) :
    (environment.changed changes).bindings.names.Nodup := by
  induction changes using List.reverseRecOn with
  | nil =>
      rw [changed, List.foldl_nil, hempty]
      exact List.nodup_nil
  | append_singleton changes step ih =>
      rw [changed_concat]
      cases step with
      | set name value => exact Bindings.nodup_names_put ih name value
      | unset name =>
          rw [change, names_unset]
          exact ih.filter _

/-- A name that comes to its place comes behind all that have theirs. -/
theorem insertedBefore_concat_set {other : Text}
    (hother : other ∈ (environment.changed changes).bindings.names)
    (hname : name ∉ (environment.changed changes).bindings.names) (value : Text) :
    InsertedBefore (changes ++ [.set name value]) other name := by
  obtain ⟨earlier, hearlier, -⟩ := (mem_names_changed_iff hempty).mp hother
  have hnew : ∀ held, ¬ Binds changes name held := by
    intro held hheld
    exact hname (Bindings.mem_names_iff.mpr ⟨held, (get?_changed_iff hempty).mpr hheld⟩)
  exact ⟨earlier, changes.length, inserts_concat.mpr (.inr ⟨nofun, hearlier⟩),
    inserts_concat.mpr (.inl ⟨⟨value, rfl⟩, hnew, rfl⟩), hearlier.lt_length⟩

theorem pairwise_names_changed (changes : List Change) :
    (environment.changed changes).bindings.names.Pairwise (InsertedBefore changes) := by
  induction changes using List.reverseRecOn with
  | nil =>
      rw [changed, List.foldl_nil, hempty]
      exact List.Pairwise.nil
  | append_singleton changes step ih =>
      rw [changed_concat]
      cases step with
      | set name value =>
          have hkept : (environment.changed changes).bindings.names.Pairwise
              (InsertedBefore (changes ++ [.set name value])) :=
            ih.imp fun hbefore => hbefore.concat nofun nofun
          rw [change, set]
          by_cases hname : name ∈ (environment.changed changes).bindings.names
          · exact (Bindings.names_put_of_mem hname value).symm ▸ hkept
          · refine (Bindings.names_put_of_not_mem hname value).symm ▸ ?_
            refine List.pairwise_append.mpr ⟨hkept, List.pairwise_singleton _ name, ?_⟩
            intro other hother last hlast
            obtain rfl := List.mem_singleton.mp hlast
            exact insertedBefore_concat_set hempty hother hname value
      | unset name =>
          rw [change, names_unset]
          refine (ih.filter _).imp_of_mem fun {first second} hfirst hsecond hbefore => ?_
          have hne : ∀ {other : Text},
              other ∈ (environment.changed changes).bindings.names.filter (· != name) →
                Change.unset name ≠ .unset other := by
            rintro other hother ⟨⟩
            simpa using (List.mem_filter.mp hother).2
          exact hbefore.concat (hne hfirst) (hne hsecond)

end Changed

/-! ### What a change leaves -/

theorem filter_change (environment : Environment) (step : Change) :
    (environment.change step).bindings.toList.filter (·.1 != step.name) =
      environment.bindings.toList.filter (·.1 != step.name) := by
  cases step with
  | set name value =>
      have hname : (name != name) = false := bne_self_eq_false name
      exact Bindings.filter_put environment.bindings (· != name) hname value
  | unset name =>
      change (environment.bindings.toList.filter (·.1 != name)).filter (·.1 != name) = _
      rw [List.filter_filter]
      simp [Change.name]

theorem set_set_comm {environment : Environment} {first second : Text} (hne : first ≠ second)
    (hfirst : first ∈ environment.bindings.names) (value other : Text) :
    (environment.set first value).set second other =
      (environment.set second other).set first value := by
  have hhidden : ((environment.set first value).set second other).hidden =
      ((environment.set second other).set first value).hidden :=
    List.filter_comm _ _ environment.hidden
  have hbindings : ((environment.set first value).set second other).bindings =
      ((environment.set second other).set first value).bindings :=
    Bindings.put_put_comm hne hfirst value other
  exact Environment.mk.injEq .. |>.mpr ⟨hbindings, hhidden, rfl⟩

theorem isSet_iff_of_hidden_eq_nil {environment : Environment} (hhidden : environment.hidden = [])
    (name : Text) :
    environment.isSet name = true ↔ ∃ value, environment.get? name = some value := by
  rw [isSet, hides, hhidden, List.any_nil, Bool.false_or, Option.isSome_iff_exists]

/-- A variable is told to have been there exactly when its removal takes something away. -/
theorem isSet_iff_length_unset (environment : Environment) (name : Text) :
    environment.isSet name = true ↔
      (environment.unset name).childBindings.length ≠ environment.childBindings.length := by
  have hhidden := List.length_filter_le (·.1 != Utf8.encode name) environment.hidden
  have hbindings := List.length_filter_le (·.1 != name) environment.bindings.toList
  have hlength : (environment.unset name).childBindings.length ≠
        environment.childBindings.length ↔
      (environment.hidden.filter (·.1 != Utf8.encode name)).length ≠ environment.hidden.length ∨
        (environment.bindings.toList.filter (·.1 != name)).length ≠
          environment.bindings.toList.length := by
    simp only [childBindings, unset, reveal, Bindings.erase, List.length_append, List.length_map]
    omega
  rw [hlength, Ne, Ne, List.length_filter_eq_length_iff, List.length_filter_eq_length_iff]
  simp [isSet, hides, get?, Bindings.get?]

/-! ### The store -/

/-- The store is the map that the changes describe. Each name is listed once, and they stand in the
order in which they came to their places. -/
structure Ordered (changes : List Change) (environment : Environment) : Prop where
  distinct : environment.bindings.names.Nodup
  value : ∀ name value, environment.get? name = some value ↔ Binds changes name value
  placed : ∀ name, name ∈ environment.bindings.names ↔ ∃! time, Inserts changes name time
  order : environment.bindings.names.Pairwise (InsertedBefore changes)

/-- What a store makes of the next change. -/
structure Responds (environment : Environment) : Prop where
  stays : ∀ name value, name ∈ environment.bindings.names →
    (environment.set name value).bindings.names = environment.bindings.names
  joins : ∀ name value, name ∉ environment.bindings.names →
    (environment.set name value).bindings.names = environment.bindings.names ++ [name]
  told : ∀ name, environment.isSet name = true ↔ ∃ value, environment.get? name = some value
  removes : ∀ name, environment.isSet name = true ↔
    (environment.unset name).childBindings.length ≠ environment.childBindings.length
  others : ∀ step : Change, (environment.change step).bindings.toList.filter (·.1 != step.name) =
    environment.bindings.toList.filter (·.1 != step.name)
  commutes : ∀ first second value other, first ≠ second → first ∈ environment.bindings.names →
    second ∈ environment.bindings.names →
      (environment.set first value).set second other =
        (environment.set second other).set first value

theorem ordered_changed {environment : Environment}
    (hempty : environment.bindings = Bindings.empty) (changes : List Change) :
    Ordered changes (environment.changed changes) where
  distinct := nodup_names_changed hempty changes
  value := fun _ _ => get?_changed_iff hempty
  placed := fun _ => mem_names_changed_iff hempty
  order := pairwise_names_changed hempty changes

theorem responds_of_hidden_eq_nil {environment : Environment} (hhidden : environment.hidden = []) :
    environment.Responds where
  stays := fun _ value hname => Bindings.names_put_of_mem hname value
  joins := fun _ value hname => Bindings.names_put_of_not_mem hname value
  told := isSet_iff_of_hidden_eq_nil hhidden
  removes := environment.isSet_iff_length_unset
  others := environment.filter_change
  commutes := fun _ _ value other hne hfirst _ => set_set_comm hne hfirst value other

/-- A store made of pairs and changed since is the map that the pairs, each as a change, and the
changes behind them describe, in the order of the last insertion of each name. It goes on as one:
a name that is set again stays where it is and a new one comes last, the removal of a name tells
whether it had a value, and no change touches or moves what has another name. -/
theorem changed_ofPairs_ordered (pairs : List (Text × Text)) (directory : Text)
    (changes : List Change) :
    let environment := (ofPairs pairs directory).changed changes
    Ordered (pairs.map (fun entry => .set entry.1 entry.2) ++ changes) environment ∧
      environment.Responds := by
  intro environment
  have hordered (calls : List Change) : Ordered calls ((ofPairs [] directory).changed calls) :=
    ordered_changed rfl calls
  have hhidden : environment.hidden = [] := by
    rw [hidden_changed]
    rfl
  refine ⟨?_, responds_of_hidden_eq_nil hhidden⟩
  have hwhole := hordered (pairs.map (fun entry => .set entry.1 entry.2) ++ changes)
  rwa [changed_append, ← ofPairs_eq_changed] at hwhole

/-- `A` is set three times, but was taken away in between; `B` stays where it was. -/
example :
    let environment := (ofPairs [("A", "1"), ("B", "2"), ("A", "3")] "/").changed
      [.unset "A", .set "B" "4", .set "C" "5", .set "A" "6"]
    environment.bindings = ⟨[("B", "4"), ("C", "5"), ("A", "6")]⟩ := by
  decide

end CommandShell.Environment
