import LayeredConfig.Yaml.Cursor
import LayeredConfig.Yaml.Token

/-! Block scalars: the lines below a header, without their common indentation. A literal scalar keeps its
lines, and a folded one joins neighbouring lines that do not start with a blank. -/

namespace LayeredConfig.Yaml.Block

/-- What becomes of the line breaks at the end. -/
inductive Chomping where
  | strip
  | clip
  | keep
  deriving DecidableEq, Repr

structure Header where
  chomping : Chomping := .clip
  /-- The columns by which the lines are indented more than what is around the scalar. -/
  indentation : Option Nat := none

def chomping? (c : Char) : Option Chomping :=
  if c == '+' then some .keep else if c == '-' then some .strip else none

/-- Reads a header after its first character. The two indicators may stand in either order, and an
indentation of zero is refused. -/
def header? (c : Cursor) : Option (Header × Cursor) :=
  let digit? (c : Cursor) : Option Nat := c.peek?.bind fun ch => if ch.isDigit then some (ch.toNat - 48) else none
  match c.peek?.bind chomping?, digit? c with
  | some chomping, _ =>
    match digit? c.pass with
    | some 0 => none
    | some n => some (⟨chomping, some n⟩, c.pass 2)
    | none => some (⟨chomping, none⟩, c.pass)
  | none, some 0 => none
  | none, some n =>
    match c.pass.peek?.bind chomping? with
    | some chomping => some (⟨chomping, some n⟩, c.pass 2)
    | none => some (⟨.clip, some n⟩, c.pass)
  | none, none => some ({}, c)

/-- Passes spaces up to the column `indent`, or all of them, and the lines that then are empty. Counts
these, and tells the greatest column that was reached. -/
def emptyLines (indent : Option Nat) : Nat → Cursor → Nat → Nat → Cursor × Nat × Nat
  | 0, c, breaks, widest => (c, breaks, widest)
  | fuel + 1, c, breaks, widest =>
    let spaces := (c.rest.takeWhile (· == ' ')).length
    let c := c.passBlanks (match indent with
      | some indent => min spaces (indent - c.column)
      | none => spaces)
    let widest := max widest c.column
    if c.peek?.any isBreak then emptyLines indent fuel c.passBreak (breaks + 1) widest
    else (c, breaks, widest)

/-- What is read of a block scalar. -/
structure Lines where
  content : Text
  /-- Whether a line break ended the last line. -/
  ended : Bool
  /-- The empty lines after the last line. -/
  breaks : Nat
  /-- Whether the last line starts with a blank. -/
  blank : Bool

def newlines (n : Nat) : Text := List.replicate n '\n'

/-- Reads the lines that start in the column `indent`. -/
def lines (literal : Bool) (indent : Nat) : Nat → Cursor → Lines → Lines × Cursor
  | 0, c, read => (read, c)
  | fuel + 1, c, read =>
    if c.column ≠ indent || c.rest == [] || (indent == 0 && c.atMark '.') then (read, c)
    else
      let blank := c.peek?.any isBlank
      let between :=
        if !literal && read.ended && !read.blank && !blank then
          if read.breaks = 0 then [' '] else newlines read.breaks
        else newlines ((if read.ended then 1 else 0) + read.breaks)
      let line := c.rest.takeWhile fun ch => !isBreak ch
      let content := read.content ++ between ++ line
      let c := c.pass line.length
      if c.rest == [] then (⟨content, false, 0, blank⟩, c)
      else
        let (c, breaks, _) := emptyLines (some indent) (c.rest.length + 1) c.passBreak 0 0
        lines literal indent fuel c ⟨content, true, breaks, blank⟩

/-- The scalar whose header starts after the indicator. `parent` is the column of what is around it. Only a
document's root can stand at the margin, and a folded one must not, unless it is blank. -/
def read? (literal : Bool) (parent : Int) (start : Cursor) : Option (Token × Cursor) := do
  let (header, c) ← header? start
  let (_, c) ← c.toLineEnd?
  if !endsLine c.peek? then none
  let c := if c.rest == [] then c else c.passBreak
  if c.peek? == some '\t' then none
  let fuel := c.rest.length + 1
  let (c, breaks, indent) := match header.indentation with
    | some n =>
      let indent := if parent ≥ 0 then (parent + n).toNat else n
      let (c, breaks, _) := emptyLines (some indent) fuel c 0 0
      (c, breaks, indent)
    | none =>
      let (c, breaks, widest) := emptyLines none fuel c 0 0
      (c, breaks, max widest (parent + 1).toNat)
  if c.rest == [] then
    let content := match header.chomping with
      | .strip => 0
      | .clip => if c.line = start.line then 0 else 1
      | .keep => if c.line = start.line then 0 else max breaks 1
    return (.scalar .block (newlines content), c)
  if c.column < indent && c.column > parent then none
  let (read, c) := lines literal indent fuel c ⟨[], false, breaks, false⟩
  let tail := match header.chomping with
    | .strip => []
    | chomping =>
      newlines (if read.ended then 1 else 0) ++
        (if c.rest == [] && c.column ≥ max indent 1 then ['\n'] else []) ++
        (if chomping = .keep then newlines read.breaks else [])
  let unindented := !literal && indent = 0 && read.content.any (!Text.isWhite ·)
  return (if unindented then .unindented else .scalar .block (read.content ++ tail), c)

end LayeredConfig.Yaml.Block
