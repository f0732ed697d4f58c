/-!
# Parts and lines of a text

`Text.parts` cuts a text at characters of a kind, and `Text.lines` at line ends. Nothing but what is cut
at is lost: `Text.intercalate_parts` puts a text together again.
-/

namespace ProcessorBench.Text

/-- The parts of a text between the characters it is cut at, one more than there are of those. -/
def parts (isBreak : Char → Bool) : List Char → List (List Char)
  | [] => [[]]
  | c :: rest =>
    if isBreak c then [] :: parts isBreak rest
    else
      match parts isBreak rest with
      | [] => [[c]]
      | part :: more => (c :: part) :: more

/-- The parts of a text between the occurrences of a character. -/
def splitOn (sep : Char) (text : String) : List String :=
  (parts (· = sep) text.toList).map String.ofList

theorem parts_ne_nil (isBreak : Char → Bool) (text : List Char) : parts isBreak text ≠ [] := by
  cases text with
  | nil => simp [parts]
  | cons c rest =>
    simp only [parts]
    split
    · simp
    · split <;> simp

/-- A text is its parts with what it was cut at between them. -/
theorem intercalate_parts (sep : Char) (text : List Char) :
    [sep].intercalate (parts (· = sep) text) = text := by
  induction text with
  | nil => rfl
  | cons c rest ih =>
    simp only [parts]
    have nonempty := parts_ne_nil (· = sep) rest
    split
    next h =>
      obtain ⟨part, more, h'⟩ := List.exists_cons_of_ne_nil nonempty
      rw [h'] at ih ⊢
      simp_all [List.intercalate, List.intersperse]
    next h =>
      split
      next h' => exact absurd h' nonempty
      next part more h' =>
        rw [h'] at ih
        cases more <;> simp_all [List.intercalate, List.intersperse]

/-- A line without the carriage return that belongs to its end. -/
def withoutReturn (line : List Char) : List Char :=
  if line.getLast? = some '\r' then line.dropLast else line

/-- The lines whose parts between line feeds are given. The last part is no line if it is empty. -/
def linesOfParts : List (List Char) → List (List Char)
  | [] => []
  | [last] => if last = [] then [] else [last]
  | line :: more => withoutReturn line :: linesOfParts more

/-- The lines of a text. A line ends with a line feed, or with a carriage return and a line feed; the
last one may end with the text. -/
def lines (text : String) : List String :=
  (linesOfParts (parts (· = '\n') text.toList)).map String.ofList

end ProcessorBench.Text
