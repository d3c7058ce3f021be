import CommandShell.Builtin.Run
import Mathlib.Data.Nat.Digits.Defs
import Mathlib.Tactic.Ring

/-!
# The operand of `exit`

A number is read digit by digit and given up as soon as it reaches the bound. Further digits do not
make it smaller again, so what is read is the number that the digits spell, exactly when that is
below the bound. Zeros in front count for nothing, however many there are.
-/

namespace CommandShell

namespace Decimal

def digitOf (character : Char) : Nat :=
  character.toNat - '0'.toNat

/-- The number that digits spell; the last of them counts least. -/
def spelled (digits : Text) : Nat :=
  Nat.ofDigits 10 (digits.map digitOf).reverse

/-- One or more digits that spell the number. -/
structure Spells (digits : Text) (number : Nat) : Prop where
  filled : digits ≠ []
  digit : ∀ character ∈ digits, character.isDigit = true
  value : spelled digits = number

/-- Digits that spell the number, with at most one plus sign in front of them. -/
def Numeral (text : Text) (number : Nat) : Prop :=
  ∃ digits, (text = digits ∨ text = '+' :: digits) ∧ Spells digits number

theorem spelled_cons (first : Char) (rest : Text) :
    spelled (first :: rest) = digitOf first * 10 ^ rest.length + spelled rest := by
  rw [spelled, List.map_cons, Nat.ofDigits_reverse_cons, List.length_map, spelled]
  ring

/-- Reading on behind a value gives the number that the value and the digits behind it make. -/
theorem readFrom_eq_ok_iff {bound value number : Nat} {digits : Text} (hvalue : value < bound) :
    readFrom bound value digits = .ok number ↔
      (∀ character ∈ digits, character.isDigit = true) ∧
        value * 10 ^ digits.length + spelled digits = number ∧ number < bound := by
  induction digits generalizing value with
  | nil =>
      have hnone : value * 10 ^ ([] : Text).length + spelled [] = value := by simp [spelled]
      rw [readFrom, hnone, Except.ok.injEq]
      constructor
      · rintro rfl
        exact ⟨nofun, rfl, hvalue⟩
      · exact fun ⟨_, hsame, _⟩ => hsame
  | cons first rest ih =>
      rw [readFrom, List.forall_mem_cons, spelled_cons, List.length_cons]
      by_cases hfirst : first.isDigit = true
      · have hsum : (value * 10 + digitOf first) * 10 ^ rest.length + spelled rest =
            value * 10 ^ (rest.length + 1) +
              (digitOf first * 10 ^ rest.length + spelled rest) := by ring
        rw [if_pos hfirst, ← hsum]
        change (if value * 10 + digitOf first < bound then
          readFrom bound (value * 10 + digitOf first) rest else _) = _ ↔ _
        split
        · next hnext => simp only [ih hnext, hfirst, true_and]
        · next hnext =>
          -- What was read so far is a lower bound for the whole number.
          have hlarger : value * 10 + digitOf first ≤
              (value * 10 + digitOf first) * 10 ^ rest.length :=
            Nat.le_mul_of_pos_right _ (Nat.pow_pos (by decide))
          constructor
          · nofun
          · rintro ⟨-, rfl, hbound⟩
            omega
      · rw [if_neg hfirst]
        simp [hfirst]

theorem readFrom_zero_eq_ok_iff {bound number : Nat} {digits : Text} (hbound : 0 < bound)
    (hfilled : digits ≠ []) :
    readFrom bound 0 digits = .ok number ↔ Spells digits number ∧ number < bound := by
  rw [readFrom_eq_ok_iff hbound, Nat.zero_mul, Nat.zero_add]
  constructor
  · rintro ⟨hdigit, hvalue, hnumber⟩
    exact ⟨⟨hfilled, hdigit, hvalue⟩, hnumber⟩
  · rintro ⟨⟨-, hdigit, hvalue⟩, hnumber⟩
    exact ⟨hdigit, hvalue, hnumber⟩

/-- A text without the plus sign in front of it. -/
def unsigned : Text → Text
  | '+' :: digits => digits
  | digits => digits

theorem numeral_iff {text : Text} {number : Nat} :
    Numeral text number ↔ Spells (unsigned text) number := by
  unfold unsigned
  split
  · next digits =>
    constructor
    · rintro ⟨others, rfl | hsame, hspells⟩
      · -- A sign is no digit, so it stands in front of all digits.
        exact absurd (hspells.digit '+' List.mem_cons_self) (by decide)
      · exact (List.cons.inj hsame).2 ▸ hspells
    · exact fun hspells => ⟨digits, .inr rfl, hspells⟩
  · next hunsigned =>
    constructor
    · rintro ⟨digits, rfl | rfl, hspells⟩
      · exact hspells
      · exact absurd rfl (hunsigned digits)
    · exact fun hspells => ⟨text, .inl rfl, hspells⟩

end Decimal

namespace Builtin

open Decimal

theorem exitStatus?_eq (operand : Text) :
    exitStatus? operand =
      if (unsigned operand).isEmpty || !(unsigned operand).all Char.isDigit then none
      else
        match readFrom statusBound 0 (unsigned operand) with
        | .ok value => some ((value % 256 : Nat) : Int)
        | .error _ => none :=
  rfl

/-- The status is that of the number, when the operand is one and it is small enough to be read. -/
theorem exitStatus?_eq_some_iff {operand : Text} {code : Status} :
    exitStatus? operand = some code ↔
      ∃ number, Numeral operand number ∧ number < statusBound ∧
        code = ((number % 256 : Nat) : Int) := by
  have hbound : 0 < statusBound := by decide
  rw [exitStatus?_eq]
  simp only [numeral_iff]
  split
  · next hrefused =>
    refine ⟨nofun, ?_⟩
    rintro ⟨number, ⟨hfilled, hdigit, -⟩, -⟩
    have hall : (unsigned operand).all Char.isDigit = true := List.all_eq_true.mpr hdigit
    simp [hfilled, hall] at hrefused
  · next haccepted =>
    have hfilled : unsigned operand ≠ [] := fun hempty => haccepted (by simp [hempty])
    simp only [← and_assoc, ← readFrom_zero_eq_ok_iff hbound hfilled]
    cases readFrom statusBound 0 (unsigned operand) with
    | ok value =>
        constructor
        · intro hcode
          exact ⟨value, rfl, (Option.some.inj hcode).symm⟩
        · rintro ⟨number, hnumber, rfl⟩
          obtain rfl := Except.ok.inj hnumber
          rfl
    | error fault => simp

end Builtin

end CommandShell
