import CommandShell.Text.Utf8

/-!
A terminal in its usual mode: it keeps the line that is being typed, on which some keys erase, and
hands the line over when it is ended. What was handed over can no longer be erased.
-/

namespace CommandShell.Host.Terminal

inductive Key
  | plain (byte : UInt8)
  | lineFeed
  | erase
  | eraseWord
  | eraseLine
  /-- The next key stands for itself. -/
  | quote
  /-- Hands over what was typed so far. On an empty line it ends the input. -/
  | handOver
  /-- Holds or releases the output. -/
  | flow
  deriving DecidableEq, Repr

/-- The keys under which a new terminal knows its commands. The return key counts as a line feed,
and a key that would interrupt a program gives up the line. -/
def keyOf (byte : UInt8) : Key :=
  if byte = 0x0A || byte = 0x0D then .lineFeed
  else if byte = 0x7F then .erase
  else if byte = 0x17 then .eraseWord
  else if byte = 0x15 || byte = 0x03 || byte = 0x1A || byte = 0x1C then .eraseLine
  else if byte = 0x16 then .quote
  else if byte = 0x04 then .handOver
  else if byte = 0x11 || byte = 0x13 then .flow
  else .plain byte

/-- Letters and digits, those of the Latin-1 set included, and the underscore. -/
def isWordByte (byte : UInt8) : Bool :=
  let code := byte.toNat
  (0x30 ≤ code && code ≤ 0x39) || (0x41 ≤ code && code ≤ 0x5A) || code = 0x5F ||
    (0x61 ≤ code && code ≤ 0x7A) || (0xC0 ≤ code && code ≠ 0xD7 && code ≠ 0xF7)

structure State where
  /-- The line that is being typed, its last byte first. -/
  line : Bytes
  /-- Whether bytes were handed over behind the last line feed. -/
  begun : Bool
  quoted : Bool

/-- How many bytes a line holds in front of its line feed. -/
def maxLine : Nat := 4095

/-- A full line loses its last byte to the next key. -/
def State.room (state : State) : Bytes :=
  state.line.drop (state.line.length - maxLine)

/-- The bytes that reach the reader until the input ends. -/
def receivedFrom (state : State) : Bytes → Bytes
  | [] => state.line.reverse
  | byte :: rest =>
    let line := state.room
    if state.quoted then
      receivedFrom { state with line := byte :: line, quoted := false } rest
    else
      match keyOf byte with
      | .plain byte => receivedFrom { state with line := byte :: line } rest
      | .lineFeed => line.reverse ++ 10 :: receivedFrom ⟨[], false, false⟩ rest
      | .erase => receivedFrom { state with line := line.drop 1 } rest
      | .eraseWord =>
        let line := (line.dropWhile (!isWordByte ·)).dropWhile isWordByte
        receivedFrom { state with line } rest
      | .eraseLine => receivedFrom { state with line := [] } rest
      | .quote => receivedFrom { state with line, quoted := true } rest
      | .handOver =>
        match line with
        | [] => if state.begun then 10 :: receivedFrom ⟨[], false, false⟩ rest else []
        | last :: _ => line.reverse ++ receivedFrom ⟨[], last ≠ 10, false⟩ rest
      | .flow => receivedFrom { state with line } rest

/-- What a reader of lines receives of typed keys. The last line is ended when it was not; a line
that is handed over twice counts as ended. -/
def received (keys : Bytes) : Bytes :=
  let ended := if keys.isEmpty || keys.getLast? = some 10 then keys else keys ++ [10]
  receivedFrom ⟨[], false, false⟩ ended

end CommandShell.Host.Terminal
