import CommandShell.Child
import CommandShell.Proofs.Environment.Children
import CommandShell.Proofs.Line.Origin
import CommandShell.Proofs.Session.Effect
import CommandShell.Proofs.Text.Utf8

/-!
# What the block of a child can hold

A child is handed its variables as bytes. A name that is empty or holds an equals sign would be
taken for another one, and a NUL that reaches the child is refused with the whole block. What holds
of each entry stays so as long as it holds of the entries that commands add: one for a `setenv`, and
two for a `cd`.
-/

namespace CommandShell

namespace Environment

variable {holds : Bytes × Bytes → Prop} {environment : Environment} {name value : Text}

def entryOf (name value : Text) : Bytes × Bytes :=
  (Utf8.encode name, Utf8.encode value)

/-- It holds of each entry that children are handed. -/
def Each (holds : Bytes × Bytes → Prop) (environment : Environment) : Prop :=
  ∀ entry ∈ environment.childBindings, holds entry

/-- Names can be told from values. -/
def Named (environment : Environment) : Prop :=
  environment.Each fun entry => entry.1 ≠ [] ∧ 61 ∉ entry.1

def NulFree (environment : Environment) : Prop :=
  environment.Each fun entry => 0 ∉ entry.1 ∧ 0 ∉ entry.2

theorem Each.set (heach : environment.Each holds) (hentry : holds (entryOf name value)) :
    (environment.set name value).Each holds := by
  intro entry hmember
  rcases List.mem_append.mp hmember with hhidden | hshown
  · exact heach entry (List.mem_append_left _ (List.mem_of_mem_filter hhidden))
  · obtain ⟨binding, hbinding, rfl⟩ := List.mem_map.mp hshown
    rcases Bindings.mem_put hbinding with hearlier | rfl
    · exact heach _ (List.mem_append_right _ (List.mem_map_of_mem hearlier))
    · exact hentry

theorem Each.unset (heach : environment.Each holds) (name : Text) :
    (environment.unset name).Each holds := by
  intro entry hmember
  rcases List.mem_append.mp hmember with hhidden | hshown
  · exact heach entry (List.mem_append_left _ (List.mem_of_mem_filter hhidden))
  · obtain ⟨binding, hbinding, rfl⟩ := List.mem_map.mp hshown
    exact heach _ (List.mem_append_right _
      (List.mem_map_of_mem (List.mem_of_mem_filter hbinding)))

theorem Each.foldl_unset (heach : environment.Each holds) (names : List Text) :
    (names.foldl Environment.unset environment).Each holds := by
  induction names generalizing environment with
  | nil => exact heach
  | cons name rest ih => exact ih (heach.unset name)

theorem Each.moved (heach : environment.Each holds) {directory : Path}
    (hleft : holds (entryOf "OLDPWD" environment.directory))
    (hhere : holds (entryOf "PWD" directory)) :
    (Builtin.moved environment directory).Each holds := by
  have hplace : ({ environment with directory } : Environment).Each holds := heach
  exact (hplace.set hleft).set hhere

theorem Each.of_mem_bindings (heach : environment.Each holds) {entry : Text × Text}
    (hentry : entry ∈ environment.bindings.toList) : holds (entryOf entry.1 entry.2) :=
  heach _ (List.mem_append_right _ (List.mem_map_of_mem hentry))

theorem directory_foldl_unset (environment : Environment) (names : List Text) :
    (names.foldl unset environment).directory = environment.directory := by
  induction names generalizing environment with
  | nil => rfl
  | cons name rest ih => exact ih _

theorem named_entryOf (hname : Builtin.isVariableName name = true) (value : Text) :
    (entryOf name value).1 ≠ [] ∧ 61 ∉ (entryOf name value).1 := by
  simp only [Builtin.isVariableName, Bool.and_eq_true, Bool.not_eq_true', List.isEmpty_eq_false_iff,
    List.contains_eq_mem, decide_eq_false_iff_not] at hname
  refine ⟨fun hnone => hname.1 (Utf8.encode_injective hnone), ?_⟩
  exact mt Utf8.equals_mem_encode_iff.mp hname.2

theorem nulFree_entryOf_iff :
    (0 ∉ (entryOf name value).1 ∧ 0 ∉ (entryOf name value).2) ↔
      '\x00' ∉ name ∧ '\x00' ∉ value := by
  rw [entryOf, Utf8.nul_mem_encode_iff, Utf8.nul_mem_encode_iff]

/-! ### Children -/

/-- No variable that reaches a child holds a NUL. -/
def Receivable (environment : Environment) : Prop :=
  ∀ name value, environment.childValue? name = some value → 0 ∉ name ∧ 0 ∉ value

theorem NulFree.receivable (hfree : environment.NulFree) : environment.Receivable :=
  fun _ _ hfound => hfree _ (mem_childBindings_of_childValue? hfound)

/-- A binding with a NUL reaches children unless one that was inherited overrides it. -/
theorem receivable_set_iff (hnul : '\x00' ∈ name ∨ '\x00' ∈ value) :
    (environment.set name value).Receivable ↔
      environment.Receivable ∧ 2 ≤ (environment.values name).length := by
  constructor
  · intro hreceivable
    by_cases hrepeated : 2 ≤ (environment.values name).length
    · refine ⟨fun found held hheld => ?_, hrepeated⟩
      rw [← childValue?_set_of_repeated hrepeated value] at hheld
      exact hreceivable found held hheld
    · have hsingle : (environment.values name).length ≤ 1 := by omega
      have hentry := hreceivable _ _ (childValue?_set_of_single hsingle value)
      obtain ⟨hname, hvalue⟩ := nulFree_entryOf_iff.mp hentry
      exact absurd hnul (not_or.mpr ⟨hname, hvalue⟩)
  · rintro ⟨hreceivable, hrepeated⟩ found held hheld
    rw [childValue?_set_of_repeated hrepeated] at hheld
    exact hreceivable found held hheld

variable {World : Type}

/-- A child whose call holds no NUL is started, as far as the variables are concerned. -/
def Passes (platform : Platform World) (environment : Environment) : Prop :=
  ∀ world program name arguments,
    (∀ text ∈ program :: name :: environment.directory :: arguments, '\x00' ∉ text) →
      let launch := Child.launchOf environment program name arguments
      Child.start platform world launch = platform.launch world launch

/-- No child is started any more. -/
def Refuses (platform : Platform World) (environment : Environment) : Prop :=
  ∀ world program name arguments,
    Child.start platform world (Child.launchOf environment program name arguments) =
      .error .dataHoldsNul

theorem holdsNul_iff {launch : Launch} :
    launch.holdsNul = true ↔
      (∃ text ∈ launch.program :: launch.name :: launch.directory :: launch.arguments,
        '\x00' ∈ text) ∨ ∃ entry ∈ lastBindings launch.bindings, 0 ∈ entry.1 ∨ 0 ∈ entry.2 := by
  simp only [Launch.holdsNul, Bool.or_eq_true, List.any_eq_true, List.contains_eq_mem,
    decide_eq_true_eq]

theorem Receivable.passes (hreceivable : environment.Receivable) (platform : Platform World) :
    environment.Passes platform := by
  intro world program name arguments hplain launch
  refine if_neg fun hholds => ?_
  rcases holdsNul_iff.mp hholds with ⟨text, htext, hmember⟩ | ⟨entry, hentry, hmember⟩
  · exact hplain text htext hmember
  · obtain ⟨hname, hvalue⟩ :=
      hreceivable _ _ (mem_lastBindings_childBindings_iff.mp hentry)
    exact hmember.elim hname hvalue

theorem refuses_of_not_receivable (hnul : ¬ environment.Receivable) (platform : Platform World) :
    environment.Refuses platform := by
  intro world program name arguments
  refine if_pos (holdsNul_iff.mpr (.inr ?_))
  by_contra hnone
  refine hnul fun found held hheld => ?_
  have hentry : (found, held) ∈ lastBindings environment.childBindings :=
    mem_lastBindings_childBindings_iff.mpr hheld
  exact ⟨fun hname => hnone ⟨_, hentry, .inl hname⟩, fun hvalue => hnone ⟨_, hentry, .inr hvalue⟩⟩

end Environment

/-! ### Requests -/

namespace Builtin

variable {World : Type} {platform : Platform World} {session : Session World} {request : Request}
  {result : Session World × Except Failure Status}

theorem Effect.each {holds : Bytes × Bytes → Prop}
    (heffect : Effect platform session request result) (heach : session.environment.Each holds)
    (hbind : ∀ name value, request = .setenv name value → isVariableName name = true →
      holds (Environment.entryOf name value))
    (hmove : ∀ path directory, platform.canonical? session.world path = some directory →
      holds (Environment.entryOf "OLDPWD" session.environment.directory) ∧
        holds (Environment.entryOf "PWD" directory)) :
    result.1.environment.Each holds := by
  cases heffect with
  | move _ hcanonical _ =>
      obtain ⟨hleft, hhere⟩ := hmove _ _ hcanonical
      exact heach.moved hleft hhere
  | bind value hname => exact heach.set (hbind _ value rfl hname)
  | unbind => exact heach.foldl_unset _
  | refuse | tell | leave | define => exact heach

theorem Effect.single (heffect : Effect platform session request result)
    (hsingle : session.environment.Single) : result.1.environment.Single := by
  cases heffect with
  | @move _ _ _ directory =>
      have hplace : ({ session.environment with directory } : Environment).Single := hsingle
      exact hplace.changed [.set "OLDPWD" session.environment.directory, .set "PWD" directory]
  | @bind name value _ => exact hsingle.changed [.set name value]
  | @unbind names _ =>
      have hchanged : names.foldl Environment.unset session.environment =
          session.environment.changed (names.map .unset) := by
        rw [Environment.changed, List.foldl_map]
        rfl
      exact hchanged ▸ hsingle.changed (names.map .unset)
  | refuse | tell | leave | define => exact hsingle

theorem Effect.directory_cases (heffect : Effect platform session request result) :
    result.1.environment.directory = session.environment.directory ∨
      ∃ path, platform.canonical? session.world path =
        some result.1.environment.directory := by
  cases heffect with
  | move _ hcanonical _ => exact .inr ⟨_, hcanonical⟩
  | unbind => exact .inl (Environment.directory_foldl_unset _ _)
  | refuse | tell | leave | bind | define => exact .inl rfl

end Builtin

end CommandShell
