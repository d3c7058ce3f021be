import CommandShell.Proofs.Builtin.Failing
import CommandShell.Proofs.Builtin.Requests
import CommandShell.Proofs.Text.Words

/-!
# Operands are free-form

Behind the mark that is put in front of them all arguments are operands, whatever they look like. As
many as a built-in takes are handed to it as they stand; a list of any other length is refused
before anything is done, with the first operand too many or with those that are missing.
-/

namespace CommandShell

namespace Builtin

/-- The numbers of operands that a built-in takes. -/
def Takes : Builtin → Nat → Prop
  | .exit, count | .cd, count | .help, count => count ≤ 1
  | .env, count | .history, count => count = 0
  | .setenv, count => count = 2
  | .unsetenv, _ | .alias, _ => True

instance (builtin : Builtin) (count : Nat) : Decidable (builtin.Takes count) := by
  cases builtin <;> unfold Takes <;> infer_instance

/-- The operands that a request was made of. -/
def Request.operands : Request → List Text
  | .explain _ | .env | .history => []
  | .exit operand | .cd operand | .help operand => operand.toList
  | .setenv name value => [name, value]
  | .unsetenv operands | .alias operands => operands

/-- What `setenv` cannot do without. -/
def setenvNames : List Text := ["name", "value"]

/-- What is wrong with a list that does not fit: there is a first operand too many, or `setenv`
misses some of its own. -/
inductive Objection (builtin : Builtin) (arguments : List Text) : Text → Prop
  | surplus {taken rest : List Text} {first : Text}
      (harguments : arguments = taken ++ first :: rest) (htaken : builtin.Takes taken.length)
      (hfull : ¬ builtin.Takes (taken.length + 1)) :
      Objection builtin arguments
        (Text.joined " " ("Unrecognized" :: "argument:" :: Text.wordsBy Text.isSpace first))
  | missing (hsetenv : builtin = .setenv) (hfew : arguments.length < 2) :
      Objection builtin arguments
        (Text.joined " " ("Required positional arguments not provided:" ::
          setenvNames.drop arguments.length))

variable {builtin : Builtin} {arguments : List Text}

/-! ### Lists that fit -/

theorem room_of_takes {count : Nat} (htakes : builtin.Takes count) :
    ∀ taken < count, (builtin.signature.nextOperand? taken).isSome := by
  intro taken htaken
  cases builtin with
  | exit | cd | help =>
      obtain rfl : taken = 0 := by simp only [Takes] at htakes; omega
      rfl
  | env | history => simp only [Takes] at htakes; omega
  | setenv =>
      obtain rfl | rfl : taken = 0 ∨ taken = 1 := by simp only [Takes] at htakes; omega
      · rfl
      · rfl
  | unsetenv | «alias» => cases taken <;> rfl

theorem missing_of_takes (htakes : builtin.Takes arguments.length) :
    builtin.signature.missing { ended := true, operands := arguments } = [] := by
  cases builtin with
  | setenv =>
      have hnone : setenv.operands.drop arguments.length = [] := by
        rw [show arguments.length = 2 from htakes]
        rfl
      simp [Arguments.Signature.missing, signature, hnone]
  | _ =>
      refine List.map_eq_nil_iff.mpr (List.filter_eq_nil_iff.mpr fun operand hoperand => ?_)
      have hmember := List.mem_of_mem_drop hoperand
      simp_all [signature, operands]

theorem owner?_requestOf (builtin : Builtin) (arguments : List Text) :
    (builtin.requestOf arguments).owner? = some builtin := by
  cases builtin <;> rfl

theorem operands_requestOf (htakes : builtin.Takes arguments.length) :
    (builtin.requestOf arguments).operands = arguments := by
  cases builtin with
  | exit | cd | help =>
      match arguments, htakes with
      | [], _ | [_], _ => rfl
  | env | history => exact (List.length_eq_zero_iff.mp htakes).symm
  | setenv =>
      obtain ⟨name, value, rfl⟩ := List.length_eq_two.mp htakes
      rfl
  | unsetenv | «alias» => rfl

/-! ### Lists that do not fit -/

/-- A list that does not fit goes on behind one that just fits, or has too few operands for
`setenv`. -/
theorem exists_surplus_or_missing (hfits : ¬ builtin.Takes arguments.length) :
    (∃ taken first rest, arguments = taken ++ first :: rest ∧ builtin.Takes taken.length ∧
        builtin.signature.nextOperand? taken.length = none) ∨
      builtin = .setenv ∧ arguments.length < 2 := by
  cases builtin with
  | exit | cd | help =>
      match arguments, hfits with
      | [], hfits | [_], hfits => exact absurd (by simp [Takes]) hfits
      | operand :: first :: rest, _ => exact .inl ⟨[operand], first, rest, rfl, Nat.le_refl 1, rfl⟩
  | env | history =>
      match arguments, hfits with
      | [], hfits => exact absurd rfl hfits
      | first :: rest, _ => exact .inl ⟨[], first, rest, rfl, rfl, rfl⟩
  | setenv =>
      match arguments, hfits with
      | [], _ => exact .inr ⟨rfl, Nat.succ_pos 1⟩
      | [_], _ => exact .inr ⟨rfl, Nat.lt_succ_self 1⟩
      | [_, _], hfits => exact absurd rfl hfits
      | name :: value :: first :: rest, _ =>
          exact .inl ⟨[name, value], first, rest, rfl, rfl, rfl⟩
  | unsetenv | «alias» => exact absurd trivial hfits

theorem not_takes_of_full {count : Nat} (hfull : builtin.signature.nextOperand? count = none) :
    ¬ builtin.Takes (count + 1) := by
  intro htakes
  have hroom := room_of_takes htakes count (Nat.lt_succ_self count)
  rw [hfull] at hroom
  cases hroom

theorem request_of_surplus {taken rest : List Text} {first : Text}
    (htaken : builtin.Takes taken.length)
    (hfull : builtin.signature.nextOperand? taken.length = none)
    (hfree : (taken ++ first :: rest).head? ≠ some "--help".toList) :
    builtin.request (taken ++ first :: rest) = .error (.unrecognized first) := by
  have hread : builtin.signature.read { ended := true } (taken ++ first :: rest) =
      .error (.unrecognized first) := by
    apply Arguments.Signature.read_of_surplus rfl
    · intro count hcount
      rw [List.length_nil, Nat.zero_add]
      exact room_of_takes htaken count hcount
    · rwa [List.length_nil, Nat.zero_add]
  simp only [Builtin.request, Arguments.Signature.parse, read_guarded_of_free _ hfree, hread]

theorem request_of_missing (hfew : arguments.length < 2)
    (hfree : arguments.head? ≠ some "--help".toList) :
    setenv.request arguments =
      .error (.missing (setenvNames.drop arguments.length)) := by
  have hread : setenv.signature.read { ended := true } arguments =
      .ok { ended := true, operands := arguments } := by
    have htakes : setenv.Takes 2 := rfl
    refine Arguments.Signature.read_of_room rfl fun taken htaken => ?_
    rw [List.length_nil, Nat.zero_add]
    exact room_of_takes htakes taken (htaken.trans hfew)
  match arguments, hfew with
  | [], _ | [_], _ =>
      simp only [Builtin.request, Arguments.Signature.parse, read_guarded_of_free _ hfree, hread]
      rfl

/-! ### The words of a refusal -/

theorem collapseSpace_unrecognized (argument : Text) :
    Text.collapseSpace (Arguments.Fault.unrecognized argument).message =
      Text.joined " " ("Unrecognized" :: "argument:" :: Text.wordsBy Text.isSpace argument) := by
  have hspace : Text.isSpace ' ' = true := rfl
  have hfeed : Text.isSpace '\n' = true := rfl
  have hopening : "Unrecognized argument: ".toList = "Unrecognized argument:".toList ++ [' '] := by
    decide
  have hmessage : (Arguments.Fault.unrecognized argument).message =
      "Unrecognized argument:".toList ++ ' ' :: (argument ++ '\n' :: []) := by
    change "Unrecognized argument: ".toList ++ argument ++ ['\n'] = _
    rw [hopening, List.append_assoc, List.append_assoc, List.singleton_append]
  have hfront : Text.wordsBy Text.isSpace "Unrecognized argument:".toList =
      ["Unrecognized".toList, "argument:".toList] := by decide
  have hback : Text.wordsBy Text.isSpace [] = [] := rfl
  have hwords : Text.wordsBy Text.isSpace (Arguments.Fault.unrecognized argument).message =
      "Unrecognized".toList :: "argument:".toList :: Text.wordsBy Text.isSpace argument := by
    rw [hmessage, Text.wordsBy_append hspace, Text.wordsBy_append hfeed, hfront, hback,
      List.append_nil]
    rfl
  exact congrArg (Text.joined " ") hwords

theorem objection_of_surplus {taken rest : List Text} {first : Text}
    (htaken : builtin.Takes taken.length)
    (hfull : builtin.signature.nextOperand? taken.length = none) :
    Objection builtin (taken ++ first :: rest)
      (Text.collapseSpace (Arguments.Fault.unrecognized first).message) := by
  rw [collapseSpace_unrecognized]
  exact .surplus rfl htaken (not_takes_of_full hfull)

theorem objection_of_missing (hfew : arguments.length < 2) :
    Objection setenv arguments (Text.collapseSpace
      (Arguments.Fault.missing (setenvNames.drop arguments.length)).message) := by
  have hmessage : ∀ count < 2,
      Text.collapseSpace (Arguments.Fault.missing (setenvNames.drop count)).message =
        Text.joined " " ("Required positional arguments not provided:" ::
          setenvNames.drop count) := by
    decide
  rw [hmessage arguments.length hfew]
  exact .missing rfl hfew

/-! ### All lists -/

/-- A list that does not open with the question for help is handed over as it stands when there are
as many operands in it as the built-in takes. Any other is refused with what is wrong with it, and
nothing is done. -/
theorem run_of_free {World : Type} (platform : Platform World) (session : Session World)
    (builtin : Builtin) {arguments : List Text}
    (hfree : arguments.head? ≠ some "--help".toList) :
    (builtin.Takes arguments.length →
      ∃ request, builtin.request arguments = .ok request ∧ request.owner? = some builtin ∧
        request.operands = arguments ∧
          builtin.run platform session arguments = perform platform session request) ∧
    (¬ builtin.Takes arguments.length →
      ∃ message, Objection builtin arguments message ∧
        builtin.run platform session arguments = (session, .error (.usage builtin.name message)) ∧
          (Failure.usage builtin.name message).status = 2) := by
  constructor
  · intro htakes
    have hrequest := request_of_room (room_of_takes htakes) (missing_of_takes htakes) hfree
    refine ⟨builtin.requestOf arguments, hrequest, owner?_requestOf builtin arguments,
      operands_requestOf htakes, ?_⟩
    rw [run, hrequest]
  · intro hfits
    have hrefused : ∃ fault, builtin.request arguments = .error fault ∧
        Objection builtin arguments (Text.collapseSpace fault.message) := by
      rcases exists_surplus_or_missing hfits with
        ⟨taken, first, rest, rfl, htaken, hfull⟩ | ⟨rfl, hfew⟩
      · exact ⟨_, request_of_surplus htaken hfull hfree, objection_of_surplus htaken hfull⟩
      · exact ⟨_, request_of_missing hfew hfree, objection_of_missing hfew⟩
    obtain ⟨fault, hrequest, hobjection⟩ := hrefused
    refine ⟨_, hobjection, ?_, rfl⟩
    rw [run, hrequest]
    rfl

theorem run_of_free_dashes :
    let session := onBareHost [] 0
    (["--", "--help"] : List Text).head? ≠ some "--help".toList ∧
      (["-1", "--help"] : List Text).head? ≠ some "--help".toList ∧
        (∃ request, setenv.request ["--", "--help"] = .ok request ∧
          request.operands = ["--".toList, "--help".toList] ∧
            setenv.run (Host.platform 2) session ["--", "--help"] =
              perform (Host.platform 2) session request) ∧
          ∃ message, Objection exit ["-1", "--help"] message ∧
            exit.run (Host.platform 2) session ["-1", "--help"] =
              (session, .error (.usage "exit" message)) := by
  intro session
  have htaken : (["--", "--help"] : List Text).head? ≠ some "--help".toList := by decide
  have hrefused : (["-1", "--help"] : List Text).head? ≠ some "--help".toList := by decide
  obtain ⟨request, hrequest, -, hoperands, hrun⟩ :=
    (run_of_free (Host.platform 2) session setenv htaken).1 (by decide)
  obtain ⟨message, hobjection, hobjected, -⟩ :=
    (run_of_free (Host.platform 2) session exit hrefused).2 (by decide)
  exact ⟨htaken, hrefused, ⟨request, hrequest, hoperands, hrun⟩, message, hobjection, hobjected⟩

end Builtin

end CommandShell
