import LayeredConfig.Decimal.Numeral
import LayeredConfig.Yaml.Cursor

/-! Tags, and the directive that declares their handles. -/

namespace LayeredConfig.Yaml.Tag

def isUriChar (c : Char) : Bool :=
  c.isAlphanum || "-#;/?:@&=+$,_.!~*'()[]%".toList.contains c

def isTagChar (c : Char) : Bool := isUriChar c && !isFlow c && c != '!'

/-- The byte that `%` and two digits stand for. -/
def byte? : Text → Option Nat
  | '%' :: a :: b :: _ => Decimal.readDigits? 16 [a, b]
  | _ => none

/-- The character that a text starts with, percent signs decoded, and the width of its spelling. Two
bytes make the character whose number they write one after the other; longer sequences name no
character. -/
def char? : Text → Option (Char × Nat)
  | [] => none
  | '%' :: t => do
    let first ← byte? ('%' :: t)
    if first < 0x80 then return (Char.ofNat first, 3)
    let second ← byte? (t.drop 2)
    let number := first * 0x100 + second
    if 0xC0 ≤ first ∧ first < 0xE0 ∧ 0x80 ≤ second ∧ second < 0xC0 ∧ number.isValidChar then
      return (Char.ofNat number, 6)
    else none
  | c :: _ => some (c, 1)

/-- The characters that satisfy `p`, decoded. -/
def spelt? (p : Char → Bool) : Nat → Cursor → Option (Text × Cursor)
  | 0, c => some ([], c)
  | fuel + 1, c =>
    if c.peek?.any p then do
      let (ch, width) ← char? c.rest
      let (t, c) ← spelt? p fuel (c.pass width)
      return (ch :: t, c)
    else some ([], c)

def uri? (p : Char → Bool) (c : Cursor) : Option (Text × Cursor) := spelt? p (c.rest.length + 1) c

/-- A handle: an exclamation mark, word characters, and perhaps another exclamation mark. -/
def handle? (c : Cursor) : Option (Text × Cursor) :=
  if c.peek? == some '!' then
    let (name, c) := c.pass.takeWhile isWordChar
    if c.peek? == some '!' then some ('!' :: name ++ ['!'], c.pass) else some ('!' :: name, c)
  else none

def isHandle (t : Text) : Bool := t.length ≥ 2 && t.getLast? == some '!'

/-- A tag as a handle and a suffix. A tag without a declared handle has the handle `!`, and the tag that
is only an exclamation mark has none. -/
def read? (flow : Bool) (c : Cursor) : Option ((Text × Text) × Cursor) := do
  let ((handle, suffix), c) ←
    if c.ahead? 1 == some '<' then do
      let (suffix, c) ← uri? isUriChar (c.pass 2)
      if c.peek? == some '>' then some (([], suffix), c.pass) else none
    else do
      let (start, c) ← handle? c
      let (suffix, c) ← uri? isTagChar c
      if isHandle start then (if suffix = [] then none else some ((start, suffix), c))
      else
        let suffix := start.drop 1 ++ suffix
        some (if suffix = [] then ([], ['!']) else (['!'], suffix), c)
  if endsWord c.peek? || (flow && c.peek?.any isFlow) then some ((handle, suffix), c) else none

/-- The handle and the start of the tags that a directive declares. -/
def declaration? (c : Cursor) : Option ((Text × Text) × Cursor) := do
  let (_, c) := c.takeWhile isBlank
  let (handle, c) ← handle? c
  if !(isHandle handle || handle == ['!']) then none
  let (_, c) := c.takeWhile isBlank
  let (first, c) ← if c.peek? == some '!' then some (['!'], c.pass)
    else if c.peek?.any isTagChar then some ([], c) else none
  let (start, c) ← uri? isUriChar c
  if endsWord c.peek? then some ((handle, first ++ start), c) else none

end LayeredConfig.Yaml.Tag
