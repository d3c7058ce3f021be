import CommandShell.Text

/-!
White space in the wide sense: the characters with the Unicode property `White_Space`. They are
trimmed off the end of an input line and around numbers, but they do not separate words.
-/

namespace CommandShell.Text

/-- The first and last code points of each run of white space, in order. -/
def spaceRuns : List (Nat × Nat) :=
  [(0x09, 0x0D), (0x20, 0x20), (0x85, 0x85), (0xA0, 0xA0), (0x1680, 0x1680), (0x2000, 0x200A),
    (0x2028, 0x2029), (0x202F, 0x202F), (0x205F, 0x205F), (0x3000, 0x3000)]

def isSpace (character : Char) : Bool :=
  spaceRuns.any fun (first, last) => first ≤ character.toNat && character.toNat ≤ last

/-- Words in the wide sense, joined again by single spaces. -/
def collapseSpace (text : Text) : Text :=
  joined " " ((pieces isSpace text).filter (!·.isEmpty))

theorem isSpace_of_isLineEnd {character : Char} (lineEnd : isLineEnd character = true) :
    isSpace character = true := by
  simp only [isLineEnd, Bool.or_eq_true, beq_iff_eq] at lineEnd
  rcases lineEnd with rfl | rfl <;> decide

end CommandShell.Text
