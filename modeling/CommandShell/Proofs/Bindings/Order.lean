import CommandShell.Bindings
import Mathlib.Data.List.Nodup

/-!
# The order of names

A name keeps its place when it is bound again, and comes behind all others when it is new. Entries
that are put into an empty table one after the other are found in it in the same order, and no name
is found twice.
-/

namespace CommandShell

namespace Bindings

/-- A name that was missing comes behind all others. -/
theorem names_put (bindings : Bindings) (name value : Text) :
    (bindings.put name value).names =
      bindings.names ++ [name].filter (!bindings.names.contains ·) := by
  obtain ⟨entries⟩ := bindings
  simp only [names, put]
  induction entries with
  | nil => rfl
  | cons entry rest ih =>
      by_cases hsame : entry.1 = name
      · simp [putEntry, hsame]
      · have hmember : ((entry :: rest).map (·.1)).contains name =
            (rest.map (·.1)).contains name := by
          simp [Ne.symm hsame]
        have hfilter : [name].filter (!((entry :: rest).map (·.1)).contains ·) =
            [name].filter (!(rest.map (·.1)).contains ·) :=
          List.filter_congr fun other hother => by rw [List.mem_singleton.mp hother, hmember]
        rw [putEntry, if_neg hsame, List.map_cons, ih, hfilter]
        rfl

theorem names_put_put (bindings : Bindings) {first second : Text} (hne : second ≠ first)
    (value other : Text) :
    ((bindings.put first value).put second other).names =
      bindings.names ++ [first, second].filter (!bindings.names.contains ·) := by
  have hsecond : second ∉ [first].filter (!bindings.names.contains ·) := fun hmember =>
    hne (List.mem_singleton.mp (List.mem_filter.mp hmember).1)
  rw [names_put, names_put, List.append_assoc]
  have hfilter : [second].filter
        (!(bindings.names ++ [first].filter (!bindings.names.contains ·)).contains ·) =
      [second].filter (!bindings.names.contains ·) := by
    refine List.filter_congr fun name hname => ?_
    obtain rfl := List.mem_singleton.mp hname
    have hcontains : (bindings.names ++ [first].filter (!bindings.names.contains ·)).contains name =
        bindings.names.contains name := by
      rw [List.contains_eq_mem, List.contains_eq_mem, decide_eq_decide, List.mem_append,
        or_iff_left hsecond]
    rw [hcontains]
  rw [hfilter, ← List.filter_append]
  rfl

theorem names_put_of_mem {bindings : Bindings} {name : Text} (hname : name ∈ bindings.names)
    (value : Text) : (bindings.put name value).names = bindings.names := by
  simp [names_put, hname]

theorem names_put_of_not_mem {bindings : Bindings} {name : Text} (hname : name ∉ bindings.names)
    (value : Text) : (bindings.put name value).names = bindings.names ++ [name] := by
  simp [names_put, hname]

theorem names_erase (bindings : Bindings) (name : Text) :
    (bindings.erase name).names = bindings.names.filter (· != name) := by
  rw [names, names, List.filter_map]
  rfl

theorem mem_names_iff {bindings : Bindings} {name : Text} :
    name ∈ bindings.names ↔ ∃ value, bindings.get? name = some value := by
  rw [← Option.isSome_iff_exists, get?, Option.isSome_map, List.find?_isSome]
  simp [names]

/-- Entries of other names stay as they are, and in their order. -/
theorem filter_put (bindings : Bindings) (keeps : Text → Bool) {name : Text}
    (hname : keeps name = false) (value : Text) :
    (bindings.put name value).toList.filter (keeps ·.1) =
      bindings.toList.filter (keeps ·.1) := by
  obtain ⟨entries⟩ := bindings
  simp only [put]
  induction entries with
  | nil => simp [putEntry, hname]
  | cons entry rest ih =>
      by_cases hsame : entry.1 = name
      · simp [putEntry, hsame, hname]
      · simp [putEntry, hsame, List.filter_cons, ih]

theorem nodup_names_put {bindings : Bindings} (hnodup : bindings.names.Nodup) (name value : Text) :
    (bindings.put name value).names.Nodup := by
  rw [names_put]
  refine List.nodup_append.mpr ⟨hnodup, (List.nodup_singleton name).filter _, ?_⟩
  rintro other hother found hfound rfl
  obtain ⟨-, hnew⟩ := List.mem_filter.mp hfound
  simp [hother] at hnew

theorem nodup_names_ofList (entries : List (Text × Text)) : (ofList entries).names.Nodup := by
  unfold ofList
  refine List.foldlRecOn (motive := fun bindings : Bindings => bindings.names.Nodup) entries _
    List.nodup_nil fun bindings hnodup entry _ => ?_
  exact nodup_names_put hnodup entry.1 entry.2

theorem put_of_not_mem {bindings : Bindings} {name : Text} (hname : name ∉ bindings.names)
    (value : Text) : bindings.put name value = ⟨bindings.toList ++ [(name, value)]⟩ := by
  obtain ⟨entries⟩ := bindings
  simp only [put, mk.injEq]
  induction entries with
  | nil => rfl
  | cons entry rest ih =>
      simp only [names, List.map_cons, List.mem_cons, not_or] at hname ih
      rw [putEntry, if_neg (Ne.symm hname.1), ih hname.2, List.cons_append]

/-- Where one of two names is bound already, it does not matter which of them is bound first. -/
theorem put_put_comm {bindings : Bindings} {first second : Text} (hne : first ≠ second)
    (hfirst : first ∈ bindings.names) (value other : Text) :
    (bindings.put first value).put second other = (bindings.put second other).put first value := by
  obtain ⟨entries⟩ := bindings
  simp only [put, mk.injEq]
  induction entries with
  | nil => cases hfirst
  | cons entry rest ih =>
      by_cases hhead : entry.1 = first
      · simp [putEntry, hhead, hne]
      · have hrest : first ∈ rest.map (·.1) :=
          (List.mem_cons.mp hfirst).resolve_left (Ne.symm hhead)
        by_cases hsecond : entry.1 = second
        · simp [putEntry, hsecond, Ne.symm hne]
        · simp [putEntry, hhead, hsecond, ih hrest]

/-- Binding a name to the value that it has changes nothing. -/
theorem put_of_mem {bindings : Bindings} (hnodup : bindings.names.Nodup) {entry : Text × Text}
    (hentry : entry ∈ bindings.toList) : bindings.put entry.1 entry.2 = bindings := by
  obtain ⟨entries⟩ := bindings
  simp only [put, mk.injEq]
  induction entries with
  | nil => cases hentry
  | cons first rest ih =>
      obtain ⟨hfirst, hrest⟩ := List.nodup_cons.mp hnodup
      rcases List.mem_cons.mp hentry with rfl | hmember
      · rw [putEntry, if_pos rfl]
      · have hne : first.1 ≠ entry.1 := fun hsame =>
          hfirst (List.mem_map.mpr ⟨entry, hmember, hsame.symm⟩)
        rw [putEntry, if_neg hne, ih hrest hmember]

theorem foldl_put_of_nodup {bindings : Bindings} {entries : List (Text × Text)}
    (hnodup : (bindings.names ++ entries.map (·.1)).Nodup) :
    entries.foldl (fun bindings entry => bindings.put entry.1 entry.2) bindings =
      ⟨bindings.toList ++ entries⟩ := by
  induction entries generalizing bindings with
  | nil => rw [List.append_nil]; rfl
  | cons entry rest ih =>
      have hnew : entry.1 ∉ bindings.names := by
        intro hmember
        obtain ⟨-, -, hdisjoint⟩ := List.nodup_append.mp hnodup
        exact hdisjoint entry.1 hmember entry.1 List.mem_cons_self rfl
      rw [List.foldl_cons, put_of_not_mem hnew, ih]
      · rw [List.append_assoc, List.singleton_append]
      · simpa [names] using hnodup

/-- Names that are bound once are bound again in the same order. -/
theorem ofList_toList {bindings : Bindings} (hnodup : bindings.names.Nodup) :
    ofList bindings.toList = bindings :=
  foldl_put_of_nodup (by simpa [empty, names] using hnodup)

theorem foldl_put_of_subset {bindings : Bindings} (hnodup : bindings.names.Nodup)
    {entries : List (Text × Text)} (hentries : ∀ entry ∈ entries, entry ∈ bindings.toList) :
    entries.foldl (fun bindings entry => bindings.put entry.1 entry.2) bindings = bindings := by
  induction entries with
  | nil => rfl
  | cons entry rest ih =>
      obtain ⟨hentry, hrest⟩ := List.forall_mem_cons.mp hentries
      rw [List.foldl_cons, put_of_mem hnodup hentry, ih hrest]

end Bindings

end CommandShell
