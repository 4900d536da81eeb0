import LayeredConfig.Text

/-! Lists of names written into one text, with any mix of white space, commas and semicolons
between them. Profile lists, override arguments and indirection entries are written so. -/

namespace LayeredConfig.PathList

def isSeparator (c : Char) : Bool :=
  Text.isAsciiWhite c || c == ',' || c == ';'

/-- The fields between separators, empty ones included. -/
def fields (t : Text) : List Text := Text.splitBy isSeparator t

/-- The names in a path list, in order. -/
def split (t : Text) : List Text :=
  (fields t).filter (· ≠ [])

/-- The texts that a path list can name: not empty, and without a separator. -/
def IsName (t : Text) : Prop :=
  t ≠ [] ∧ ∀ c ∈ t, isSeparator c = false

end LayeredConfig.PathList
