/-!
Text as a list of characters, and the cuts that the command language makes in it: words between
blanks, pieces between separators, and ends trimmed by a class of characters.
-/

namespace CommandShell

abbrev Text := List Char

instance : Coe String Text := ⟨String.toList⟩

namespace Text

/-- Blanks separate words: a space or a tab, and nothing else. -/
def isBlank (character : Char) : Bool :=
  character == ' ' || character == '\t'

/-- A line ends in any run of line feeds and carriage returns. -/
def isLineEnd (character : Char) : Bool :=
  character == '\n' || character == '\r'

/-- The pieces between separators; there is one piece more than there are separators. -/
def pieces {Item : Type} (separates : Item → Bool) : List Item → List (List Item)
  | [] => [[]]
  | item :: rest =>
    if separates item then
      [] :: pieces separates rest
    else
      match pieces separates rest with
      | [] => [[item]]
      | first :: others => (item :: first) :: others

def words (text : Text) : List Text :=
  (pieces isBlank text).filter (!·.isEmpty)

def trimStart (drops : Char → Bool) (text : Text) : Text :=
  text.dropWhile drops

def trimEnd (drops : Char → Bool) (text : Text) : Text :=
  (text.reverse.dropWhile drops).reverse

def trim (drops : Char → Bool) (text : Text) : Text :=
  trimEnd drops (trimStart drops text)

def joined (separator : Text) (parts : List Text) : Text :=
  separator.intercalate parts

theorem pieces_ne_nil {Item : Type} (separates : Item → Bool) (content : List Item) :
    pieces separates content ≠ [] := by
  cases content with
  | nil => simp [pieces]
  | cons item rest =>
    unfold pieces
    split
    · simp
    · split <;> simp

end Text

end CommandShell
