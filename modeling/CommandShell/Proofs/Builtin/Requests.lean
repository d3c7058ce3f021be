import CommandShell.Builtin

/-!
# What an argument list asks of a built-in

Operands are free-form: unless a list opens with the question for help, all of its arguments are
operands, whatever they look like. A list that opens with the question is never anything else.
-/

namespace CommandShell

namespace Arguments

variable {signature : Signature} {reading after : Reading} {argument : Text}
  {arguments : List Text}

theorem Signature.takeOperand_eq_ok (htake : signature.takeOperand reading argument = .ok after) :
    ∃ operand, signature.nextOperand? reading.operands.length = some operand ∧
      after = { reading with
        operands := reading.operands ++ [argument]
        ended := reading.ended || operand.arity = .all } := by
  unfold takeOperand at htake
  split at htake
  · cases htake
  · next operand hnext => exact ⟨operand, hnext, (Except.ok.inj htake).symm⟩

/-- Behind the end of the options, every argument is an operand. -/
theorem Signature.read_of_ended (hended : reading.ended = true)
    (hread : signature.read reading arguments = .ok after) :
    after = { reading with operands := reading.operands ++ arguments } := by
  induction arguments generalizing reading with
  | nil =>
      rw [List.append_nil]
      exact (Except.ok.inj hread).symm
  | cons argument rest ih =>
      rw [read, if_pos hended] at hread
      split at hread
      · next next htake =>
        obtain ⟨operand, -, rfl⟩ := takeOperand_eq_ok htake
        rw [ih (by simp [hended]) hread]
        simp [hended]
      · cases hread

/-- Arguments are taken as long as there is an operand for the next one. -/
theorem Signature.read_append (hended : reading.ended = true) {front : List Text}
    (hroom : ∀ taken < front.length,
      (signature.nextOperand? (reading.operands.length + taken)).isSome) (back : List Text) :
    signature.read reading (front ++ back) =
      signature.read { reading with operands := reading.operands ++ front } back := by
  induction front generalizing reading with
  | nil => rw [List.nil_append, List.append_nil]
  | cons argument rest ih =>
      obtain ⟨operand, hnext⟩ := Option.isSome_iff_exists.mp (hroom 0 (Nat.succ_pos _))
      rw [Nat.add_zero] at hnext
      rw [List.cons_append, read, if_pos hended, takeOperand, hnext]
      simp only [hended, Bool.true_or]
      rw [ih rfl]
      · simp
      · intro taken htaken
        have hlater := hroom (taken + 1) (Nat.succ_lt_succ htaken)
        simpa [Nat.add_assoc, Nat.add_comm 1] using hlater

theorem Signature.read_of_room (hended : reading.ended = true)
    (hroom : ∀ taken < arguments.length,
      (signature.nextOperand? (reading.operands.length + taken)).isSome) :
    signature.read reading arguments =
      .ok { reading with operands := reading.operands ++ arguments } := by
  have hread := read_append hended hroom []
  rwa [List.append_nil, read] at hread

/-- The first argument for which there is no operand any more is refused. -/
theorem Signature.read_of_surplus (hended : reading.ended = true) {taken rest : List Text}
    {first : Text}
    (hroom : ∀ count < taken.length,
      (signature.nextOperand? (reading.operands.length + count)).isSome)
    (hfull : signature.nextOperand? (reading.operands.length + taken.length) = none) :
    signature.read reading (taken ++ first :: rest) = .error (.unrecognized first) := by
  rw [read_append hended hroom, read, if_pos hended, takeOperand]
  simp only [List.length_append, hfull]

/-- Where no operand takes all that is left, each takes one argument. -/
theorem Signature.length_le_of_read_ended (hall : ∀ operand ∈ signature.operands,
      operand.arity ≠ .all) (hended : reading.ended = true)
    (hfits : reading.operands.length ≤ signature.operands.length)
    (hread : signature.read reading arguments = .ok after) :
    reading.operands.length + arguments.length ≤ signature.operands.length := by
  induction arguments generalizing reading with
  | nil => exact hfits
  | cons argument rest ih =>
      rw [read, if_pos hended] at hread
      split at hread
      · next next htake =>
        obtain ⟨operand, hnext, rfl⟩ := takeOperand_eq_ok htake
        have hroom : reading.operands.length < signature.operands.length := by
          refine Nat.lt_of_not_le fun hfull => ?_
          rw [nextOperand?, List.getElem?_eq_none hfull] at hnext
          obtain ⟨hlast, harity⟩ := Option.filter_eq_some_iff.mp hnext
          exact hall operand (List.mem_of_getLast? hlast) (of_decide_eq_true harity)
        have hrest := ih (by simp [hended]) (by simpa using Nat.succ_le_of_lt hroom) hread
        simp only [List.length_append, List.length_cons, List.length_nil] at hrest ⊢
        omega
      · cases hread

/-- What asks for help is not taken back. -/
theorem Signature.helps_of_read (hhelps : reading.helps = true)
    (hread : signature.read reading arguments = .ok after) : after.helps = true := by
  fun_induction Signature.read signature reading arguments with
  | case1 reading =>
      obtain rfl := Except.ok.inj hread
      exact hhelps
  | case2 reading argument rest hended next htake ih =>
      obtain ⟨operand, -, rfl⟩ := takeOperand_eq_ok htake
      exact ih hhelps hread
  | case5 reading argument rest _ _ _ next htake ih =>
      obtain ⟨operand, -, rfl⟩ := takeOperand_eq_ok htake
      exact ih hhelps hread
  | case4 reading argument rest _ _ ih => exact ih rfl hread
  | case7 reading rest _ _ _ ih => exact ih hhelps hread
  -- Options are not read once help was asked for.
  | case9 | case10 | case11 | case12 | case13 => contradiction
  | case3 | case6 | case8 => cases hread

end Arguments

namespace Builtin

variable {builtin : Builtin} {arguments : List Text} {request : Request}

theorem read_guarded_of_help (signature : Arguments.Signature) (rest : List Text) :
    signature.read {} (guarded ("--help".toList :: rest)) =
      signature.read { helps := true } rest := by
  have hguarded : guarded ("--help".toList :: rest) = "--help".toList :: rest := if_pos rfl
  rw [hguarded, Arguments.Signature.read, if_neg Bool.false_ne_true, if_pos (by decide)]

theorem read_guarded_of_free (signature : Arguments.Signature)
    (hfree : arguments.head? ≠ some "--help".toList) :
    signature.read {} (guarded arguments) = signature.read { ended := true } arguments := by
  have hguarded : guarded arguments = "--".toList :: arguments := if_neg hfree
  rw [hguarded, Arguments.Signature.read, if_neg Bool.false_ne_true, if_neg (by decide),
    if_neg (by decide), if_pos (by decide)]

/-- A list that opens with the question for help asks for nothing else; of any other, all arguments
are operands, and unless the last operand takes all that is left, there are no more of them than
the built-in has operands. -/
theorem request_cases (hrequest : builtin.request arguments = .ok request) :
    arguments.head? = some "--help".toList ∧ request = .explain builtin ∨
      arguments.head? ≠ some "--help".toList ∧ request = builtin.requestOf arguments ∧
        ((∀ operand ∈ builtin.operands, operand.arity ≠ .all) →
          arguments.length ≤ builtin.operands.length) := by
  unfold Builtin.request Arguments.Signature.parse at hrequest
  by_cases hhead : arguments.head? = some "--help".toList
  · refine .inl ⟨hhead, ?_⟩
    obtain ⟨rest, rfl⟩ := List.head?_eq_some_iff.mp hhead
    rw [read_guarded_of_help] at hrequest
    cases hread : builtin.signature.read { helps := true } rest with
    | error fault => simp [hread] at hrequest
    | ok reading =>
        have hhelps := Arguments.Signature.helps_of_read rfl hread
        simpa [hread, hhelps] using hrequest.symm
  · refine .inr ⟨hhead, ?_⟩
    rw [read_guarded_of_free _ hhead] at hrequest
    cases hread : builtin.signature.read { ended := true } arguments with
    | error fault => simp [hread] at hrequest
    | ok reading =>
        obtain rfl := Arguments.Signature.read_of_ended rfl hread
        refine ⟨?_, fun hall => ?_⟩
        · simp only [hread, Bool.false_eq_true, if_false, List.nil_append] at hrequest
          split at hrequest
          · cases hrequest
          · next htaken => split at htaken <;> cases htaken
          · next htaken =>
            split at htaken <;> cases htaken
            exact (Except.ok.inj hrequest).symm
        · have hlength :=
            Arguments.Signature.length_le_of_read_ended hall rfl (Nat.zero_le _) hread
          rwa [List.length_nil, Nat.zero_add] at hlength

/-- A list with an operand for each argument and no required operand left over is taken as it
stands. -/
theorem request_of_room
    (hroom : ∀ taken < arguments.length, (builtin.signature.nextOperand? taken).isSome)
    (hmissing : builtin.signature.missing { ended := true, operands := arguments } = [])
    (hfree : arguments.head? ≠ some "--help".toList) :
    builtin.request arguments = .ok (builtin.requestOf arguments) := by
  have hread : builtin.signature.read { ended := true } arguments =
      .ok { ended := true, operands := arguments } := by
    refine Arguments.Signature.read_of_room rfl fun taken htaken => ?_
    rw [List.length_nil, Nat.zero_add]
    exact hroom taken htaken
  simp only [Builtin.request, Arguments.Signature.parse, read_guarded_of_free _ hfree, hread,
    hmissing, Bool.false_eq_true, if_false]

/-- A built-in that takes any number of operands is refused none. -/
theorem request_of_takes (htakes : ∀ taken, (builtin.signature.nextOperand? taken).isSome)
    (hoptional : ∀ operand ∈ builtin.operands, operand.arity ≠ .required)
    (hfree : arguments.head? ≠ some "--help".toList) :
    builtin.request arguments = .ok (builtin.requestOf arguments) := by
  refine request_of_room (fun taken _ => htakes taken) ?_ hfree
  refine List.map_eq_nil_iff.mpr (List.filter_eq_nil_iff.mpr fun operand hoperand => ?_)
  simpa using hoptional operand (List.mem_of_mem_drop hoperand)

end Builtin

end CommandShell
