import LayeredConfig.Text

/-! A place in a document, with the line and the column that indentation is measured by. -/

namespace LayeredConfig.Yaml

def isBlank (c : Char) : Bool := c == ' ' || c == '\t'

def isBreak (c : Char) : Bool := c == '\n' || c == '\r'

/-- The characters that structure flow collections. -/
def isFlow (c : Char) : Bool := c == ',' || c == '[' || c == ']' || c == '\x7b' || c == '\x7d'

/-- Letters, digits, the underscore and the hyphen. -/
def isWordChar (c : Char) : Bool := c.isAlphanum || c == '_' || c == '-'

/-- Whether a line ends before this character; the end of the document ends a line. -/
def endsLine (c? : Option Char) : Bool := c?.all isBreak

/-- Whether a word ends before this character. -/
def endsWord (c? : Option Char) : Bool := c?.all fun c => isBlank c || isBreak c

structure Cursor where
  rest : Text
  /-- How many characters come before. -/
  index : Nat := 0
  line : Nat := 0
  column : Nat := 0
  /-- Nothing but blanks comes before on this line. -/
  fresh : Bool := true

namespace Cursor

def peek? (c : Cursor) : Option Char := c.rest.head?

/-- The character that comes `n` after the next one. -/
def ahead? (c : Cursor) (n : Nat) : Option Char := c.rest[n]?

/-- Passes `n` characters of a line. -/
def pass (c : Cursor) (n : Nat := 1) : Cursor :=
  { c with rest := c.rest.drop n, index := c.index + n, column := c.column + n, fresh := false }

/-- Passes `n` blanks, or a comment of `n` characters. -/
def passBlanks (c : Cursor) (n : Nat := 1) : Cursor := { c.pass n with fresh := c.fresh }

/-- Passes the end of a line. -/
def passBreak (c : Cursor) : Cursor :=
  let width := match c.rest with
    | '\r' :: '\n' :: _ => 2
    | [] => 0
    | _ => 1
  { rest := c.rest.drop width, index := c.index + width, line := c.line + 1, column := 0, fresh := true }

/-- Passes everything up to the end of the line. -/
def passLine (c : Cursor) : Cursor := c.passBlanks (c.rest.takeWhile fun c => !isBreak c).length

/-- The characters from here on that satisfy `p`, and the place after them. -/
def takeWhile (c : Cursor) (p : Char → Bool) : Text × Cursor :=
  let run := c.rest.takeWhile p
  (run, if run = [] then c else c.pass run.length)

/-- A mark of three equal characters that stands alone. -/
def atMark (c : Cursor) (mark : Char) : Bool :=
  c.ahead? 0 == some mark && c.ahead? 1 == some mark && c.ahead? 2 == some mark && endsWord (c.ahead? 3)

/-- Whether a document starts or ends here. -/
def atDocumentMark (c : Cursor) : Bool := c.column == 0 && (c.atMark '-' || c.atMark '.')

/-- The blanks that were passed on the way to the end of a line. -/
structure Passed where
  tab : Bool
  space : Bool

/-- Passes blanks, and a comment after them. A comment has to be set off by a blank. -/
def toLineEnd? (c : Cursor) : Option (Passed × Cursor) :=
  let blanks := c.rest.takeWhile isBlank
  let passed : Passed := ⟨'\t' ∈ blanks, ' ' ∈ blanks⟩
  let after := c.passBlanks blanks.length
  if after.peek? == some '#' then
    if blanks = [] then none else some (passed, after.passLine)
  else some (passed, after)

end Cursor

/-- How many line feeds stand for the line breaks between two words: a single break is a space. -/
def fold (breaks : Nat) : Text :=
  match breaks with
  | 0 => []
  | 1 => [' ']
  | n + 1 => List.replicate n '\n'

end LayeredConfig.Yaml
