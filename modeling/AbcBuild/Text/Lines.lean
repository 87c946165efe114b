/-
Module: AbcBuild.Text.Lines
Purpose: Cutting a text into lines.  A line ends at a line feed, and a carriage return directly before that
  line feed belongs to the line end.  The last line may lack its line feed; then it keeps everything, a
  carriage return at the very end of the text included.
Main exports: lines
-/

namespace AbcBuild.Text

/-- The lines of a text, without their ends.  An empty text has no line. -/
def lines : List Char → List (List Char)
  | [] => []
  | '\r' :: '\n' :: rest => [] :: lines rest
  | '\n' :: rest => [] :: lines rest
  | c :: rest =>
    match lines rest with
    | [] => [[c]]
    | line :: more => (c :: line) :: more

end AbcBuild.Text
