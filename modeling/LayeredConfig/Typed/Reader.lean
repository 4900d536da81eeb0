import LayeredConfig.Typed.Value

/-! Reading the text of a property as a typed value: `true`, a number, a text or a character in quotes, an
array `[1, 2]`, a dictionary `{a=1, b=2}`. A text that is none of these, or that does not end with the
value, is a text as it stands. -/

namespace LayeredConfig.Typed.Reader

-- A power is taken with the core library's own exponentiation, whatever else is imported beside it.
attribute [local instance (high)] instPowNat

def skipWhite (t : Text) : Text := t.dropWhile Text.isAsciiWhite

/-- The characters that end a bare word. -/
def isDelimiter (c : Char) : Bool := c == ',' || c == '{' || c == '}' || c == '[' || c == ']'

def isKeyChar (c : Char) : Bool := c.isAlphanum || c == '_' || c == '-'

/-- What follows `c` when the text starts with it. -/
def after? (c : Char) : Text → Option Text
  | d :: t => if d = c then some t else none
  | [] => none

/-- What follows a word when the text starts with it. -/
def afterWord? (word t : Text) : Option Text :=
  if word.isPrefixOf t then some (t.drop word.length) else none

/-- The text between quotes as it is written, and what follows it. A backslash protects the next
character. -/
def untilQuote : Text → Option (Text × Text)
  | [] => none
  | '"' :: t => some ([], t)
  | '\\' :: c :: t => (untilQuote t).map fun (inner, rest) => ('\\' :: c :: inner, rest)
  | c :: t => (untilQuote t).map fun (inner, rest) => (c :: inner, rest)

def simpleEscape? : Char → Option Char
  | '"' => some '"'
  | '\\' => some '\\'
  | 'b' => some '\x08'
  | 'f' => some '\x0c'
  | 'n' => some '\n'
  | 'r' => some '\r'
  | 't' => some '\t'
  | _ => none

/-- Whether a character may stand in quotes without an escape. -/
def isQuotable (c : Char) : Bool := c == '\t' || (c.toNat ≥ 0x20 && c != '\x7f')

/-- Reads the escapes of a text between quotes. -/
def unescape? : Text → Option Text
  | [] => some []
  | '\\' :: 'u' :: a :: b :: c :: d :: t => do
    let n ← Decimal.readDigits? 16 [a, b, c, d]
    return (← Text.charOfNumber? n) :: (← unescape? t)
  | '\\' :: 'U' :: a :: b :: c :: d :: e :: f :: g :: h :: t => do
    let n ← Decimal.readDigits? 16 [a, b, c, d, e, f, g, h]
    return (← Text.charOfNumber? n) :: (← unescape? t)
  | '\\' :: c :: t => do return (← simpleEscape? c) :: (← unescape? t)
  | c :: t => do if isQuotable c then return c :: (← unescape? t) else none

/-- The characters at a text's start that take no more than `bytes` bytes in UTF-8. -/
def upTo (bytes : Nat) : Text → Text
  | [] => []
  | c :: t => if c.utf8Size ≤ bytes then c :: upTo (bytes - c.utf8Size) t else []

/-- A text in quotes, after the opening one. Of the characters before the first escape, if there is one, only
as many bytes are kept as there are characters. -/
def quotedText? (t : Text) : Option (Text × Text) := do
  let (inner, rest) ← untilQuote t
  let start := inner.takeWhile (· ≠ '\\')
  let text ← unescape? inner
  if start = inner then return (text, rest)
  else return (upTo start.length start ++ text.drop start.length, rest)

def key? (t : Text) : Option (Text × Text) :=
  match t with
  | '"' :: t => quotedText? t
  | t =>
    let word := t.takeWhile isKeyChar
    if word = [] then none else some (word, t.drop word.length)

/-- A word without quotes: a number where it is one. Only a word with a point can be a float, and whole
numbers are kept to 64 bits. -/
def bare (word : Text) : Value :=
  let float? := if '.' ∈ word then Decimal.readBinary64? word else none
  match float?, Decimal.readInt? word with
  | some x, _ => .float x
  | none, some n =>
    if 0 ≤ n ∧ n < 2 ^ (64 : Nat) ∧ word.head? ≠ some '-' then .unsigned n.toNat
    else if -2 ^ (63 : Nat) ≤ n ∧ n < 2 ^ (63 : Nat) then .signed n
    else .text word
  | none, none => .text word

mutual

/-- A value with the white space around it, and what follows. Each call spends one unit of `fuel`. -/
def value? : Nat → Text → Option (Value × Text)
  | 0, _ => none
  | fuel + 1, t =>
    let t := skipWhite t
    let read : Option (Value × Text) :=
      match afterWord? "true".toList t, afterWord? "false".toList t with
      | some rest, _ => some (.bool true, rest)
      | _, some rest => some (.bool false, rest)
      | none, none =>
        match t with
        | '\x7b' :: t => (entries? fuel t).map fun (entries, rest) => (.dict (.ofList entries), rest)
        | '[' :: t => (items? fuel t).map fun (items, rest) => (.array (.ofList items), rest)
        | '"' :: t => (quotedText? t).map fun (text, rest) => (.text text, rest)
        | '\'' :: c :: '\'' :: t => some (.char c, t)
        | '\'' :: _ => none
        | t =>
          let word := t.takeWhile fun c => !isDelimiter c
          some (bare (Text.trim word), t.drop word.length)
    read.map fun (value, rest) => (value, skipWhite rest)

/-- The items of an array, after the opening bracket. The last one may be followed by a comma. -/
def items? : Nat → Text → Option (List Value × Text)
  | 0, _ => none
  | fuel + 1, t =>
    match after? ']' t with
    | some rest => some ([], rest)
    | none => do
      let (value, t) ← value? fuel t
      match after? ',' t with
      | some t =>
        let (values, rest) ← items? fuel t
        return (value :: values, rest)
      | none => return ([value], ← after? ']' t)

/-- The entries of a dictionary, after the opening brace. -/
def entries? : Nat → Text → Option (List (Text × Value) × Text)
  | 0, _ => none
  | fuel + 1, t =>
    match after? '\x7d' t with
    | some rest => some ([], rest)
    | none => do
      let (key, t) ← key? (skipWhite t)
      let t ← after? '=' (skipWhite t)
      let (value, t) ← value? fuel t
      match after? ',' t with
      | some t =>
        let (entries, rest) ← entries? fuel t
        return ((key, value) :: entries, rest)
      | none => return ([(key, value)], ← after? '\x7d' t)

end

/-- The value of a property's text. Between two characters that are read, no more than two calls are
made, so the fuel lasts. -/
def read (raw : Text) : Value :=
  match value? (2 * raw.length + 2) raw with
  | some (value, []) => value
  | _ => .text raw

end LayeredConfig.Typed.Reader
