import LayeredConfig.Text

/-! The lines of a text. A line ends at a line feed, and one carriage return right before the line feed belongs
to the line's end. -/

namespace LayeredConfig.Text

def dropReturn (line : Text) : Text :=
  if line.getLast? = some '\r' then line.dropLast else line

/-- The lines among the parts between line feeds: the last part has no end of its own, and it is no
line when it is empty. -/
def linesOfParts : List Text → List Text
  | [] => []
  | [last] => if last = [] then [] else [last]
  | part :: parts => dropReturn part :: linesOfParts parts

def lines (t : Text) : List Text := linesOfParts (splitOn '\n' t)

end LayeredConfig.Text
