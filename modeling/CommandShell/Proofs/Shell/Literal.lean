import CommandShell.Proofs.Shell.Composition

/-!
# An alias stands for its text

The line that names an alias is cut once, its first segment is rewritten and cut again, and the
pieces are queued in front of what remains. The line in which the value stands in the place of the
name is cut in one go. Both queues hold the same texts behind the same operators; they differ in
that the pieces of the one are not expanded again, which makes no difference as long as none of
them opens with the name of an alias when its turn comes.
-/

namespace CommandShell

def Segment.asPiece (segment : Segment) : Segment :=
  { segment with expanded := true }

namespace Shell

variable {World : Type} (platform : Platform World)

/-- Along the run of a queue, no segment whose turn comes opens with the name of an alias; the first
word of a blank segment is the empty one. -/
def OpensWithoutAlias (session : Session World) : List Segment → Prop
  | [] => True
  | segment :: rest =>
    if segment.operator.permits session.status then
      session.aliases.get? (Alias.firstWord segment.text).1 = none ∧
        ((session.runSegment platform segment).leaving = none →
          OpensWithoutAlias (session.runSegment platform segment) rest)
    else OpensWithoutAlias session rest

theorem segments_asPiece (operator : Operator) (found : Text × List (Operator × Text)) :
    Chain.segments operator true found =
      (Chain.segments operator false found).map Segment.asPiece := by
  simp [Chain.segments, Segment.asPiece]

theorem drain_asPiece {session : Session World} {segments : List Segment}
    (hopens : OpensWithoutAlias platform session segments) :
    drain platform session (segments.map Segment.asPiece) = drain platform session segments := by
  induction segments generalizing session with
  | nil => rfl
  | cons segment rest ih =>
      rw [OpensWithoutAlias] at hopens
      by_cases hpermits : segment.operator.permits session.status = true
      · rw [if_pos hpermits] at hopens
        obtain ⟨hnone, hrest⟩ := hopens
        have hpermits' : segment.asPiece.operator.permits session.status = true := hpermits
        have hexpanded : segment.asPiece.expanded = true := rfl
        have hrun : session.runSegment platform segment.asPiece =
            session.runSegment platform segment := rfl
        rw [List.map_cons, drain_cons_of_permits platform hpermits,
          drain_cons_of_permits platform hpermits', resolve_of_expanded _ hexpanded,
          resolve_of_get?_eq_none hnone]
        simp only [hrun, List.nil_append]
        cases hleaving : (session.runSegment platform segment).leaving with
        | none => exact ih (hrest hleaving)
        | some code => rfl
      · rw [if_neg hpermits] at hopens
        have hpermits' : ¬ segment.asPiece.operator.permits session.status = true := hpermits
        rw [List.map_cons, drain_cons_of_not_permits platform hpermits,
          drain_cons_of_not_permits platform hpermits', ih hopens]

theorem drain_of_expand? {session : Session World} {segment first : Segment}
    {others : List Segment} (hpermits : segment.operator.permits session.status = true)
    (htyped : segment.expanded = false) (hoperator : first.operator = segment.operator)
    (hexpand : Alias.expand? session.aliases segment = some (first :: others)) :
    drain platform session [segment] = drain platform session (first :: others) := by
  have hresolve : resolve session.aliases segment = (first, others) := by
    simp [resolve, htyped, hexpand]
  have hfirst := expanded_of_mem_expand? hexpand first List.mem_cons_self
  have hpermits' : first.operator.permits session.status = true := by rwa [hoperator]
  rw [drain_cons_of_permits platform hpermits, drain_cons_of_permits platform hpermits', hresolve,
    resolve_of_expanded _ hfirst, List.append_nil, List.nil_append]

theorem split_name_append {name rest : Text} (hplain : Chain.Plain name)
    (hfresh : Chain.OpensFresh rest) :
    Chain.split (name ++ (Chain.cut rest).1) =
      [{ text := name ++ (Chain.cut rest).1, operator := .start }] := by
  rw [Chain.split_eq_segments,
    Chain.cut_append name (hfresh.of_start (Chain.prefix_cut_fst rest)), Chain.cut_cut_fst,
    Chain.cut_of_plain hplain]
  rfl

/-- A line that opens with the name of an alias runs as the line with its value in that place. -/
theorem executeLine_alias (shell : Shell World) {name value rest : Text}
    (hword : Text.words name = [name]) (hplain : Chain.Plain name)
    (halias : shell.session.aliases.get? name = some value)
    (hrest : ∀ character ∈ rest.head?, Text.isBlank character = true)
    (hnamed : Line.accepted? (name ++ rest) = some (name ++ rest))
    (hliteral : Line.accepted? (value ++ rest) = some (value ++ rest))
    (hopens : OpensWithoutAlias platform shell.session
      (Chain.split (value ++ (Chain.cut rest).1))) :
    shell.executeLine platform (name ++ rest) false =
      shell.executeLine platform (value ++ rest) false := by
  have hfresh : Chain.OpensFresh rest := by
    cases rest with
    | nil => trivial
    | cons first others => exact Chain.opensFresh_of_isBlank (hrest first rfl) others
  have hfirstRest : ∀ character ∈ (Chain.cut rest).1.head?, Text.isBlank character = true := by
    intro character hmember
    obtain ⟨others, hothers⟩ := Chain.prefix_cut_fst rest
    refine hrest character ?_
    rw [← hothers, List.head?_append_of_ne_nil]
    · exact hmember
    · exact List.ne_nil_of_mem (List.mem_of_mem_head? hmember)
  have hexpand := Alias.expand?_eq shell.session.aliases
    { text := name ++ (Chain.cut rest).1, operator := .start }
  rw [Alias.firstWord_append hword hfirstRest, halias, Option.map_some] at hexpand
  rw [executeLine_of_accepted platform shell hnamed,
    executeLine_of_accepted platform shell hliteral, Chain.split_append name hfresh,
    Chain.split_append value hfresh, drain_append, drain_append, split_name_append hplain hfresh]
  congr 1
  calc drain platform shell.session [{ text := name ++ (Chain.cut rest).1, operator := .start }]
      = drain platform shell.session
          (Chain.segments .start true (Chain.cut (value ++ (Chain.cut rest).1))) :=
        drain_of_expand? platform rfl rfl rfl hexpand
    _ = drain platform shell.session (Chain.split (value ++ (Chain.cut rest).1)) := by
        rw [segments_asPiece, ← Chain.split_eq_segments]
        exact drain_asPiece platform hopens

theorem executeLine_alias_blank_pieces :
    Line.accepted? ("e".toList ++ " && exit 3".toList) =
        some ("e".toList ++ " && exit 3".toList) ∧
      Line.accepted? ("; ;env".toList ++ " && exit 3".toList) =
          some ("; ;env".toList ++ " && exit 3".toList) ∧
        (onBareHost [("e", "; ;env")]).executeLine (Host.platform 2)
            ("e".toList ++ " && exit 3".toList) false =
          (onBareHost [("e", "; ;env")]).executeLine (Host.platform 2)
            ("; ;env".toList ++ " && exit 3".toList) false := by
  have hnamed : Line.accepted? ("e".toList ++ " && exit 3".toList) =
      some ("e".toList ++ " && exit 3".toList) := by decide
  have hliteral : Line.accepted? ("; ;env".toList ++ " && exit 3".toList) =
      some ("; ;env".toList ++ " && exit 3".toList) := by decide
  have halias : (onBareHost [("e", "; ;env")]).session.aliases.get? "e" = some "; ;env".toList := by
    decide
  have hopens : OpensWithoutAlias (Host.platform 2) (onBareHost [("e", "; ;env")]).session
      (Chain.split ("; ;env".toList ++ (Chain.cut " && exit 3").1)) :=
    ⟨by decide, fun _ => ⟨by decide, fun _ => ⟨by decide, fun _ => trivial⟩⟩⟩
  have hrest : ∀ character ∈ " && exit 3".toList.head?, Text.isBlank character = true := by
    intro character hmember
    obtain rfl := Option.some.inj hmember
    rfl
  exact ⟨hnamed, hliteral, executeLine_alias (Host.platform 2) (onBareHost [("e", "; ;env")])
    (by decide) (by decide) halias hrest hnamed hliteral hopens⟩

end Shell

end CommandShell
