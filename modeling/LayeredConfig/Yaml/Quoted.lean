import LayeredConfig.Decimal.Numeral
import LayeredConfig.Text.Utf16
import LayeredConfig.Yaml.Cursor

/-! Scalars in quotes. In single quotes only the quote itself is escaped, by writing it twice; in double
quotes the backslash escapes. Their lines are folded as those of plain scalars are. -/

namespace LayeredConfig.Yaml.Quoted

def simpleEscape? : Char → Option Nat
  | '0' => some 0
  | 'a' => some 7
  | 'b' => some 8
  | 't' | '\t' => some 9
  | 'n' => some 10
  | 'v' => some 11
  | 'f' => some 12
  | 'r' => some 13
  | 'e' => some 27
  | ' ' => some 32
  | '"' => some 34
  | '/' => some 47
  | '\\' => some 92
  | 'N' => some 0x85
  | '_' => some 0xA0
  | 'L' => some 0x2028
  | 'P' => some 0x2029
  | _ => none

/-- The number that the first `n` characters write with hexadecimal digits. -/
def hex? (n : Nat) (t : Text) : Option Nat :=
  if t.length < n then none else Decimal.readDigits? 16 (t.take n)

/-- The character that an escape after the backslash stands for, and the escape's length. A pair of
surrogates is one character. -/
def escape? (t : Text) : Option (Char × Nat) :=
  match t with
  | [] => none
  | 'x' :: t => do return (← Text.charOfNumber? (← hex? 2 t), 3)
  | 'U' :: t => do return (← Text.charOfNumber? (← hex? 8 t), 9)
  | 'u' :: t => do
    let unit ← hex? 4 t
    match Text.charOfNumber? unit, t.drop 4 with
    | some c, _ => return (c, 5)
    | none, '\\' :: 'u' :: t => do
      let low ← hex? 4 t
      match Utf16.decode [unit, low] with
      | .ok [c] => return (c, 11)
      | _ => none
    | none, _ => none
  | c :: _ => do return (← Text.charOfNumber? (← simpleEscape? c), 1)

/-- The content up to the next blank, line break or closing quote, and the place there. The result tells
whether an escaped line break was passed. -/
def word? (double : Bool) : Nat → Cursor → Option (Text × Cursor × Bool)
  | 0, c => some ([], c, false)
  | fuel + 1, c =>
    let onwards (ch : Char) (width : Nat) : Option (Text × Cursor × Bool) :=
      (word? double fuel (c.pass width)).map fun (content, rest) => (ch :: content, rest)
    match c.rest with
    | [] => some ([], c, false)
    | ch :: t =>
      if isBlank ch || isBreak ch then some ([], c, false)
      else if !double && ch == '\'' then
        if t.head? == some '\'' then onwards '\'' 2 else some ([], c, false)
      else if double && ch == '"' then some ([], c, false)
      else if double && ch == '\\' then
        if t.head?.any isBreak then some ([], c.pass.passBreak, true)
        else (escape? t).bind fun (escaped, width) => onwards escaped (width + 1)
      else onwards ch 1

/-- Passes blanks and line breaks. Blanks count until the first break; `escaped` says that there was one
already, which is no part of the content. -/
def gap? (indent : Int) : Nat → Cursor → Text → Nat → Bool → Option (Cursor × Text × Nat)
  | 0, c, blanks, breaks, _ => some (c, blanks, breaks)
  | fuel + 1, c, blanks, breaks, escaped =>
    match c.peek? with
    | none => some (c, blanks, breaks)
    | some ch =>
      if isBlank ch then
        if escaped || breaks > 0 then
          if ch == '\t' && c.column < indent then none else gap? indent fuel c.passBlanks blanks breaks escaped
        else gap? indent fuel c.passBlanks (blanks ++ [ch]) breaks escaped
      else if isBreak ch then gap? indent fuel c.passBreak [] (breaks + 1) escaped
      else some (c, blanks, breaks)

/-- Reads on after `content`, up to and with the closing quote. -/
def readOn? (double : Bool) (indent : Int) : Nat → Cursor → Text → Option (Text × Cursor)
  | 0, _, _ => none
  | fuel + 1, c, content =>
    if c.atDocumentMark || c.rest == [] || c.column < indent then none
    else do
      let (next, c, escaped) ← word? double (c.rest.length + 1) c
      let content := content ++ next
      if c.peek? == some (if double then '"' else '\'') then return (content, c.pass)
      else
        let (c, blanks, breaks) ← gap? indent (c.rest.length + 1) c [] 0 escaped
        let between := if escaped then List.replicate breaks '\n' else if breaks > 0 then fold breaks else blanks
        readOn? double indent fuel c (content ++ between)

/-- The scalar whose opening quote stands here, and the place after it and the blanks that follow it. On
its last line nothing may follow but a comment, a colon, or the next part of a flow collection. -/
def read? (double flow : Bool) (indent : Int) (start : Cursor) : Option (Text × Cursor) := do
  let (content, c) ← readOn? double indent (start.rest.length + 1) start.pass []
  let (_, c) ← c.toLineEnd?
  let follows := endsLine c.peek? ||
    (flow && c.peek?.any fun ch => ch == ',' || ch == '\x7d' || ch == ']') ||
    (c.peek? == some ':' && (flow || start.line == c.line))
  if follows then some (content, c) else none

end LayeredConfig.Yaml.Quoted
