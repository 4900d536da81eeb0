import LayeredConfig.Text

/-! Lines of a properties text. A logical line is a line of the text that is neither blank nor a comment,
together with the lines that continue it: a line ending in an odd number of backslashes is continued by
the next one, from that one's first character that is no blank. -/

namespace LayeredConfig.Properties

def isBlank (c : Char) : Bool := c == ' ' || c == '\t' || c == '\x0c'

def trimStart (t : Text) : Text := t.dropWhile isBlank

/-- Whether a line is continued by the next. -/
def continues (line : Text) : Bool := (line.reverse.takeWhile (· == '\\')).length % 2 == 1

/-- Whether a line, its leading blanks removed, holds no entry of its own. -/
def isIdle : Text → Bool
  | [] => true
  | c :: _ => c == '#' || c == '!'

/-- A logical line, and the number of the line it starts on. -/
structure LogicalLine where
  number : Nat
  text : Text
  deriving DecidableEq, Repr

/-- Completes a line from the lines after it, and gives those that are left. A continuation that the
text does not carry on is dropped. -/
def complete (line : Text) : List (Nat × Text) → Text × List (Nat × Text)
  | [] => (if continues line then line.dropLast else line, [])
  | next :: rest =>
    if continues line then complete (line.dropLast ++ trimStart next.2) rest else (line, next :: rest)

theorem length_complete_le (line : Text) (rest : List (Nat × Text)) :
    (complete line rest).2.length ≤ rest.length := by
  induction rest generalizing line with
  | nil => simp [complete]
  | cons next rest ih =>
    unfold complete
    split
    · exact Nat.le_succ_of_le (ih _)
    · exact Nat.le_refl _

def logicalLines : List (Nat × Text) → List LogicalLine
  | [] => []
  | (number, line) :: rest =>
    let start := trimStart line
    if isIdle start then logicalLines rest
    else
      let done := complete start rest
      ⟨number, done.1⟩ :: logicalLines done.2
termination_by lines => lines.length
decreasing_by
  · simp
  · exact Nat.lt_succ_of_le (length_complete_le _ _)

/-- The lines with their numbers, from 1 on. -/
def numbered (lines : List Text) : List (Nat × Text) :=
  lines.zipIdx.map fun (line, index) => (index + 1, line)

end LayeredConfig.Properties
