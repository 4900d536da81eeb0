import LayeredConfig.Yaml.Cursor

/-! Scalars without quotes. Their lines are folded: a single line break between two words is a space. -/

namespace LayeredConfig.Yaml.Plain

/-- What a scalar's surroundings ask of it. -/
structure Place where
  flow : Bool
  /-- The least column of its lines. -/
  indent : Int

/-- The characters up to the end of a word. A colon before a blank ends it, and in flow collections so
do their characters. -/
def word (flow : Bool) : Text → Text
  | [] => []
  | c :: t =>
    if isBlank c || isBreak c then []
    else if c == ':' && (endsWord t.head? || (flow && t.head?.any isFlow)) then []
    else if flow && isFlow c then []
    else c :: word flow t

/-- Passes blanks and line breaks, with the blanks since the last word and the line breaks counted. A
tab may stand before a line's least column only when the line is blank. -/
def gap? (place : Place) : Nat → Cursor → Text → Nat → Option (Cursor × Text × Nat)
  | 0, c, blanks, breaks => some (c, blanks, breaks)
  | fuel + 1, c, blanks, breaks =>
    match c.peek? with
    | none => some (c, blanks, breaks)
    | some ch =>
      if isBlank ch then
        if !c.fresh then gap? place fuel c.passBlanks (blanks ++ [ch]) breaks
        else if ch == '\t' && c.column < place.indent then do
          let (_, c) ← c.toLineEnd?
          if endsLine c.peek? then gap? place fuel c blanks breaks else none
        else gap? place fuel c.passBlanks blanks breaks
      else if isBreak ch then gap? place fuel c.passBreak [] (breaks + 1)
      else some (c, blanks, breaks)

/-- Whether the mark of a document's start or end begins the line here, indented or not. -/
def atMark (c : Cursor) : Bool := c.fresh && (c.atMark '-' || c.atMark '.')

/-- Reads on after `content`, with the gap since its last word. -/
def readOn? (place : Place) : Nat → Cursor → Text → Text → Nat → Option (Text × Cursor)
  | 0, c, content, _, _ => some (content, c)
  | fuel + 1, c, content, blanks, breaks =>
    if atMark c || c.peek? == some '#' then some (content, c)
    else if place.flow && c.peek? == some '-' && (c.ahead? 1).any isFlow then none
    else
      let next := word place.flow c.rest
      let (c, content, blanks, breaks) :=
        if next = [] then (c, content, blanks, breaks)
        else (c.pass next.length, content ++ (if c.fresh then fold breaks else blanks) ++ next, [], 0)
      if c.peek?.any fun ch => isBlank ch || isBreak ch then do
        let (c, blanks, breaks) ← gap? place (c.rest.length + 1) c blanks breaks
        if !place.flow && c.column < place.indent then some (content, c)
        else readOn? place fuel c content blanks breaks
      else some (content, c)

/-- The scalar that starts here, and the place after it and the gap that follows it. -/
def read? (place : Place) (c : Cursor) : Option (Text × Cursor) := do
  if place.flow && c.column < place.indent then none
  let (content, c) ← readOn? place (c.rest.length + 1) c [] [] 0
  if content = [] then none else some (content, c)

end LayeredConfig.Yaml.Plain
