import CommandShell.Text.Utf8

/-!
The `echo` program: its arguments with single spaces between them, in which escapes count when an
option asks for them.
-/

namespace CommandShell.Host.Echo

/-- An option is any of the letters `n`, `e` and `E` behind a dash. -/
def isOption : Text → Bool
  | '-' :: first :: rest => (first :: rest).all fun letter => "neE".toList.contains letter
  | _ => false

/-- The bytes that letters behind a backslash stand for. -/
def named : List (UInt8 × UInt8) :=
  [(92, 92), (97, 7), (98, 8), (101, 27), (102, 12), (110, 10), (114, 13), (116, 9), (118, 11)]

def digit? (base : Nat) (byte : UInt8) : Option Nat :=
  let code := byte.toNat
  let value :=
    if 0x30 ≤ code && code ≤ 0x39 then code - 0x30
    else if 0x41 ≤ code && code ≤ 0x46 then code - 0x41 + 10
    else if 0x61 ≤ code && code ≤ 0x66 then code - 0x61 + 10
    else base
  if value < base then some value else none

/-- The number that at most so many digits make, and what follows them. -/
def number (base : Nat) : Nat → Nat → Bytes → Nat × Bytes
  | 0, value, text => (value, text)
  | _, value, [] => (value, [])
  | count + 1, value, byte :: rest =>
    match digit? base byte with
    | some digit => number base count (value * base + digit) rest
    | none => (value, byte :: rest)

/-- The byte that an escape stands for, and what follows it: a letter, `x` with up to two digits,
or up to three octal ones, which may stand behind a zero. -/
def escape? : Bytes → Option (UInt8 × Bytes)
  | [] => none
  | byte :: rest =>
    if byte = 48 then
      let (value, rest) := number 8 3 0 rest
      some (value.toUInt8, rest)
    else if byte = 120 && (rest.head?.bind (digit? 16)).isSome then
      let (value, rest) := number 16 2 0 rest
      some (value.toUInt8, rest)
    else if (digit? 8 byte).isSome then
      let (value, rest) := number 8 3 0 (byte :: rest)
      some (value.toUInt8, rest)
    else (named.find? (·.1 == byte)).map fun (_, value) => (value, rest)

/-- The text with each escape in it replaced; `c` behind a backslash ends all output. The fuel is
the length of the text. -/
def unescaped (ending : Bytes) : Nat → Bytes → Bytes
  | 0, _ | _, [] => ending
  | _ + 1, 92 :: 99 :: _ => []
  | fuel + 1, byte :: rest =>
    match if byte = 92 then escape? rest else none with
    | some (value, rest) => value :: unescaped ending fuel rest
    | none => byte :: unescaped ending fuel rest

/-- What the program prints; of several options on one matter the last one counts. -/
def printed (arguments : List Text) : Bytes :=
  let letters := (arguments.takeWhile isOption).flatMap (·.drop 1)
  let text := [32].intercalate ((arguments.dropWhile isOption).map Utf8.encode)
  let ending := if letters.contains 'n' then [] else [10]
  if (letters.filter (· != 'n')).getLast? = some 'e' then unescaped ending text.length text
  else text ++ ending

end CommandShell.Host.Echo
