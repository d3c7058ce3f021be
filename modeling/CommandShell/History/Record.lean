import CommandShell.Text.Utf8

/-!
The file format of a history: one record a line. Reading is lenient: bytes that are not UTF-8 are
replaced, line ends of either kind are dropped, and empty records are skipped.
-/

namespace CommandShell.History.Record

def decode (piece : Bytes) : Text :=
  Text.trimEnd Text.isLineEnd (Utf8.decodeLossy piece)

def parse (content : Bytes) : List Text :=
  ((Text.pieces (· == 10) content).map decode).filter (!·.isEmpty)

end CommandShell.History.Record
