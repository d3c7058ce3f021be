import CommandShell.Proofs.Host.Location

/-!
# A file in the root directory

An absolute path of one name leads to the same place wherever the process works. What is written
there is read again, and no child of a host changes any file.
-/

namespace CommandShell.Host

namespace FileSystem

/-- A name that a directory can hold. -/
structure IsName (name : Text) : Prop where
  noSlash : '/' ∉ name
  noNul : '\x00' ∉ name
  leads : staysAt name = false ∧ name ≠ ['.', '.']
  short : (Utf8.encode name).length ≤ maxName

theorem IsName.ne_nil {name : Text} (hname : IsName name) : name ≠ [] := by
  rintro rfl
  exact absurd hname.leads.1 (by decide)

theorem steps_root {name : Text} (hname : IsName name) : steps ('/' :: name) = [name] := by
  have hwhole : ∀ character ∈ name, (character == '/') = false := by
    intro character hcharacter
    apply beq_false_of_ne
    rintro rfl
    exact hname.noSlash hcharacter
  have hlast : ('/' :: name).getLast? ≠ some '/' := by
    intro hslash
    rw [List.getLast?_cons_of_ne_nil hname.ne_nil] at hslash
    exact hname.noSlash (List.mem_of_getLast? hslash)
  have hpieces : Text.pieces (· == '/') ('/' :: name) = [[], name] := by
    rw [Text.pieces, if_pos (beq_self_eq_true '/'), Text.pieces_of_forall_not hwhole]
  rw [steps, hpieces, if_neg hlast]
  simp [hname.ne_nil]

theorem seekSteps_root {name : Text} (hname : IsName name) (files : FileSystem) (creating : Bool)
    (working : Place) (hlink : ∀ target, files.node? [name] ≠ some (.link target)) :
    files.seekSteps creating working ('/' :: name) (steps ('/' :: name)) =
      .ok (⟨[name], 0⟩, files.node? [name]) := by
  have hnul : ('/' :: name).contains '\x00' = false := by
    simp [hname.noNul]
  have hwalk : files.walk creating maxLinks [] [name] = .ok ([name], files.node? [name]) := by
    have hshort : ¬ maxName < (Utf8.encode name).length := Nat.not_lt.mpr hname.short
    have hroot : files.node? [] = some .directory := rfl
    rw [maxLinks, walk, walkWith, hroot]
    have hnot : (creating && decide (([] : List Text) = [[]])) = false := by simp
    simp only [hname.leads.1, hname.leads.2, hshort, hnot, List.nil_append, if_false,
      Bool.false_eq_true]
    cases hnode : files.node? [name] with
    | none => rfl
    | some node =>
        cases node with
        | link target => exact absurd hnode (hlink target)
        | _ => exact congrArg (fun found => Except.ok ([name], found)) hnode
  have habsolute : Path.isAbsolute ('/' :: name) = true := rfl
  simp only [seekSteps, steps_root hname, hnul, habsolute, List.isEmpty_cons, walkFrom, climb,
    hwalk, Bool.false_eq_true, if_true, if_false]
  rfl

theorem isTooLong_root {name : Text} (hname : IsName name) : isTooLong ('/' :: name) = false := by
  have hlength : (Utf8.encode ('/' :: name)).length = 1 + (Utf8.encode name).length := by
    rw [Utf8.encode, List.flatMap_cons, List.length_append]
    rfl
  have hshort : ¬ maxPath < 1 + (Utf8.encode name).length := by
    have hmax := hname.short
    unfold maxName at hmax
    unfold maxPath
    omega
  rw [isTooLong, hlength, decide_eq_false hshort, Bool.false_and]

end FileSystem

open FileSystem

/-- What the root directory of a host holds under a name, when that is a file or nothing. -/
def HoldsInRoot (name : Text) (host : Host) : Option Bytes → Prop
  | none => host.files.node? [name] = none
  | some content => ∃ executable, host.files.node? [name] = some (.file content executable)

theorem HoldsInRoot.fileAt {name : Text} {host : Host} {content? : Option Bytes}
    (hholds : HoldsInRoot name host content?) : FileAt [name] host content? := by
  cases content? <;> exact hholds

theorem FileAt.holdsInRoot {name : Text} {host : Host} {content? : Option Bytes}
    (hfile : FileAt [name] host content?) : HoldsInRoot name host content? := by
  cases content? <;> exact hfile

theorem HoldsInRoot.confined {name : Text} (hname : IsName name) {host : Host}
    {content? : Option Bytes} (hholds : HoldsInRoot name host content?) :
    Confined host ('/' :: name) [name] host content? where
  leads := by
    rw [Leads, findForWriting, isTooLong_root hname, if_neg Bool.false_ne_true]
    exact seekSteps_root hname host.files true host.working hholds.fileAt.not_link
  file := hholds.fileAt
  working := .inl rfl
  elsewhere _ _ := rfl

theorem stores_root {name : Text} (hname : IsName name) (processId : Nat) :
    (platform processId).Stores ('/' :: name) (HoldsInRoot name) where
  missing {host} hholds :=
    (stores_confined (Host.launch processId) host _ _).missing (hholds.confined hname)
  read {host content} hholds :=
    (stores_confined (Host.launch processId) host _ _).read (hholds.confined hname)
  update {host content?} change hholds := by
    obtain ⟨after, hupdate, hafter⟩ :=
      (stores_confined (Host.launch processId) host _ _).update change (hholds.confined hname)
    exact ⟨after, hupdate, hafter.file.holdsInRoot⟩

theorem spares_root (name : Text) (processId : Nat) (content? : Option Bytes) :
    (platform processId).Spares (HoldsInRoot name · content?) where
  enter {host after directory} henter hholds := by
    have hfiles : after.files = host.files :=
      (spares_files (world_launch processId) host.files).enter henter rfl
    cases content? <;> simpa only [HoldsInRoot, hfiles] using hholds
  launch {host request child} hlaunch hholds := by
    rwa [world_launch processId host request child hlaunch]

end CommandShell.Host
