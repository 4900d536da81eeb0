/-!
Texts and the character classes the formats share. A text is a list of Unicode characters; every
reader and writer of this library works on that type, and `String` occurs only in messages and at
the outer edge.
-/

namespace LayeredConfig

/-- A text, character by character. -/
abbrev Text := List Char

-- Named once, so that membership of a text in a list is decided alike in every module.
instance : LawfulBEq Text := inferInstance

namespace Text

/-- The characters with the Unicode property `White_Space`. -/
def isWhite (c : Char) : Bool :=
  let n := c.toNat
  (9 ≤ n && n ≤ 13) || n == 0x20 || n == 0x85 || n == 0xA0 || n == 0x1680 ||
    (0x2000 ≤ n && n ≤ 0x200A) || n == 0x2028 || n == 0x2029 || n == 0x202F || n == 0x205F ||
    n == 0x3000

/-- The five white space characters of ASCII; the vertical tab is not one of them. -/
def isAsciiWhite (c : Char) : Bool :=
  c == ' ' || c == '\t' || c == '\n' || c == '\x0c' || c == '\r'

def dropEndWhile (p : Char → Bool) (t : Text) : Text :=
  (t.reverse.dropWhile p).reverse

/-- The text without the white space at its two ends. -/
def trim (t : Text) : Text :=
  dropEndWhile isWhite (t.dropWhile isWhite)

def asciiLower (t : Text) : Text :=
  t.map Char.toLower

/-- What follows the first occurrence of `c`, with what stands before it. -/
def splitAt? (c : Char) : Text → Option (Text × Text)
  | [] => none
  | d :: t => if d = c then some ([], t) else (splitAt? c t).map fun (before, after) => (d :: before, after)

/-- Whether `part` occurs in the text. -/
def holds (part : Text) : Text → Bool
  | [] => part == []
  | c :: t => part.isPrefixOf (c :: t) || holds part t

/-- The parts between the items that satisfy `p`; there is always one more part than such items. -/
def splitBy {α : Type} (p : α → Bool) : List α → List (List α)
  | [] => [[]]
  | x :: rest =>
    if p x then [] :: splitBy p rest
    else match splitBy p rest with
      | [] => [[x]]
      | part :: parts => (x :: part) :: parts

/-- The parts between the occurrences of `c`. -/
def splitOn (c : Char) (t : Text) : List Text := splitBy (· == c) t

/-- The character with a number, when there is one. -/
def charOfNumber? (n : Nat) : Option Char := if n.isValidChar then some (Char.ofNat n) else none

/-- A decimal numeral. -/
def ofNat (n : Nat) : Text := Nat.toDigits 10 n

def ofInt (i : Int) : Text := if i < 0 then '-' :: ofNat i.natAbs else ofNat i.natAbs

end Text

end LayeredConfig
