import CommandShell.Text

/-!
Text as UTF-8 bytes. Writing is total. Reading cuts the bytes into characters and faults, where a
fault is the longest start of a character that the next byte (or the end) breaks off, or else a
single byte that starts none. A strict reader refuses every fault; a lossy reader puts the
replacement character in its place.
-/

namespace CommandShell

abbrev Bytes := List UInt8

namespace Utf8

def encode (text : Text) : Bytes :=
  text.flatMap String.utf8EncodeChar

/-- What a first byte announces: its share of the code point, the number of bytes that continue
it, and the bounds of the first of these, which keep out long forms, surrogates and code points
beyond the last. -/
structure Lead where
  share : Nat
  tails : Nat
  low : Nat := 0x80
  high : Nat := 0xBF

def lead? (byte : Nat) : Option Lead :=
  if byte < 0x80 then some { share := byte, tails := 0 }
  else if byte < 0xC2 then none
  else if byte < 0xE0 then some { share := byte - 0xC0, tails := 1 }
  else if byte = 0xE0 then some { share := 0, tails := 2, low := 0xA0 }
  else if byte = 0xED then some { share := 0xD, tails := 2, high := 0x9F }
  else if byte < 0xF0 then some { share := byte - 0xE0, tails := 2 }
  else if byte = 0xF0 then some { share := 0, tails := 3, low := 0x90 }
  else if byte < 0xF4 then some { share := byte - 0xF0, tails := 3 }
  else if byte = 0xF4 then some { share := 4, tails := 3, high := 0x8F }
  else none

/-- Takes the bytes that continue a character, and stops in front of the first that does not. -/
def continued (share low high : Nat) : Nat → Bytes → Option Nat × Bytes
  | 0, rest => (some share, rest)
  | _ + 1, [] => (none, [])
  | count + 1, byte :: rest =>
    if low ≤ byte.toNat && byte.toNat ≤ high then
      continued (share * 0x40 + (byte.toNat - 0x80)) 0x80 0xBF count rest
    else
      (none, byte :: rest)

theorem continued_suffix (share low high count : Nat) (bytes : Bytes) :
    (continued share low high count bytes).2 <:+ bytes := by
  induction count generalizing share low high bytes with
  | zero => exact List.suffix_rfl
  | succ count ih =>
    cases bytes with
    | nil => exact List.suffix_rfl
    | cons byte rest =>
      unfold continued
      split
      · exact (ih _ _ _ rest).trans (List.suffix_cons byte rest)
      · exact List.suffix_rfl

/-- The character that a nonempty run of bytes starts with, or nothing for a fault, and the bytes
behind it. -/
def next (byte : UInt8) (rest : Bytes) : Option Char × Bytes :=
  match lead? byte.toNat with
  | none => (none, rest)
  | some lead =>
    let found := continued lead.share lead.low lead.high lead.tails rest
    (found.1.map Char.ofNat, found.2)

theorem next_suffix (byte : UInt8) (rest : Bytes) : (next byte rest).2 <:+ rest := by
  unfold next
  split
  · exact List.suffix_rfl
  · exact continued_suffix _ _ _ _ _

def characters : Bytes → List (Option Char)
  | [] => []
  | byte :: rest => (next byte rest).1 :: characters (next byte rest).2
termination_by bytes => bytes.length
decreasing_by exact Nat.lt_succ_of_le (next_suffix byte rest).length_le

def replacement : Char := '\uFFFD'

def decodeLossy (bytes : Bytes) : Text :=
  (characters bytes).map (·.getD replacement)

def decode? (bytes : Bytes) : Option Text :=
  (characters bytes).mapM id

end Utf8

end CommandShell
