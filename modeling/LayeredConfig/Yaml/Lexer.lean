import LayeredConfig.Yaml.Block
import LayeredConfig.Yaml.Plain
import LayeredConfig.Yaml.Quoted
import LayeredConfig.Yaml.Tag
import LayeredConfig.Yaml.Token

/-! The tokens of a text. Two things are known only after the fact. A scalar, or any other node on one
line, is a key when a colon follows; so the place before each token that may start a key is kept, and the
key token is put there later. And a block collection ends where a line starts to the left of it, so the
columns of the open collections are kept. -/

namespace LayeredConfig.Yaml

/-- A token, and the tokens that were found to belong before it. -/
structure Slot where
  /-- How many slots come before. -/
  number : Nat
  before : List Token := []
  token : Token
  column : Nat

/-- A place where a key may have started. -/
structure KeyStart where
  index : Nat
  line : Nat
  column : Nat
  /-- The line can be nothing else than a key. -/
  required : Bool
  /-- The number of the slot that the token gets. -/
  slot : Nat

/-- The column of the collection that is around the current one. -/
structure Indent where
  parent : Int
  /-- Whether a block collection was opened. If not, the column only tells how far its content has to be
  indented. -/
  opened : Bool

/-- Whether a pair without braces has started among the items of a flow sequence, and on which level. -/
inductive LoosePair where
  | possible
  | inside (level : Nat)
  deriving DecidableEq

structure Lexer where
  cursor : Cursor
  /-- The tokens so far, the last first. -/
  slots : List Slot := []
  /-- Whether a key may start here. -/
  keyAllowed : Bool := true
  keyStart : Option KeyStart := none
  /-- The key starts outside each open flow collection. -/
  outerKeyStarts : List (Option KeyStart) := []
  indent : Int := -1
  indents : List Indent := []
  /-- Where a colon needs no blank after it, because what precedes is a key by its form. -/
  adjacentAt : Nat := 0
  /-- The pairs of a flow mapping are written with a token for each key already. -/
  inFlowMapping : Bool := false
  loosePairs : List LoosePair := []

namespace Lexer

/-- How many flow collections are open. -/
def depth (lexer : Lexer) : Nat := lexer.outerKeyStarts.length

def inFlow (lexer : Lexer) : Bool := lexer.depth > 0

/-- Whether a key that started here would have to end on an earlier line, or be too long. Only block
collections ask that of their keys. -/
def isStale (lexer : Lexer) (key : KeyStart) : Bool :=
  !lexer.inFlow && (key.line < lexer.cursor.line || key.index + 1024 < lexer.cursor.index)

/-- The key starts that may still turn out to be keys, or have to. -/
def pendingKeys (lexer : Lexer) : List KeyStart :=
  let pending := lexer.keyStart.filter fun key => key.required || !lexer.isStale key
  pending.toList ++ lexer.outerKeyStarts.filterMap id

/-- The number of the next slot. -/
def nextSlot (lexer : Lexer) : Nat :=
  match lexer.slots with
  | [] => 0
  | last :: _ => last.number + 1

def tokensOf (slots : List Slot) : List Token :=
  slots.reverse.flatMap fun slot => slot.before ++ [slot.token]

/-- The tokens that nothing can be put before any more. -/
def settled (lexer : Lexer) : List Token :=
  let settled := lexer.pendingKeys.foldl (fun slots key => min slots key.slot) lexer.nextSlot
  tokensOf (lexer.slots.filter (·.number < settled))

end Lexer

abbrev Lex := StateT Lexer Option

namespace Lex

def refuse {α : Type} : Lex α := fun _ => none

def require (p : Bool) : Lex Unit := if p then pure () else refuse

def cursor : Lex Cursor := return (← get).cursor

def inFlow : Lex Bool := return (← get).inFlow

def moveTo (cursor : Cursor) : Lex Unit := modify ({ · with cursor })

/-- Reads a part with a reader of its own. -/
def part {α : Type} (result : Option (α × Cursor)) : Lex α := do
  let (value, cursor) ← (result : Option _)
  moveTo cursor
  return value

def push (token : Token) (column : Nat := 0) : Lex Unit :=
  modify fun lexer => { lexer with slots := { number := lexer.nextSlot, token, column } :: lexer.slots }

def allowKey (keyAllowed : Bool) : Lex Unit := modify ({ · with keyAllowed })

/-- Puts a token before the one in the slot with the number given. -/
def putBeforeSlot (number : Nat) (token : Token) : List Slot → List Slot
  | [] => []
  | slot :: rest =>
    if slot.number = number then { slot with before := token :: slot.before } :: rest
    else slot :: putBeforeSlot number token rest

/-- Puts a token before one that was read earlier, or at the end. -/
def putBefore (slot? : Option Nat) (token : Token) : Lex Unit :=
  match slot? with
  | none => push token
  | some slot => modify fun lexer => { lexer with slots := putBeforeSlot slot token lexer.slots }

/-! ### Indentation -/

/-- Closes the block collections that a line in this column does not belong to. -/
def unrollWhile : List Indent → Int → Lex Unit
  | [], _ => pure ()
  | top :: rest, column => do
    if (← get).indent > column then
      modify ({ · with indent := top.parent, indents := rest })
      if top.opened then push .blockEnd
      unrollWhile rest column

def unroll (column : Int) : Lex Unit := do
  if !(← inFlow) then unrollWhile (← get).indents column

/-- Drops the columns that belong to no open collection. -/
def unrollHints : Lex Unit := modify fun lexer =>
  let hints := lexer.indents.takeWhile (!·.opened)
  match hints.getLast? with
  | none => lexer
  | some last => { lexer with indent := last.parent, indents := lexer.indents.drop hints.length }

/-- Opens a block collection when the column lies right of the current one. -/
def roll (column : Nat) (slot? : Option Nat) (token : Token) : Lex Unit := do
  if ← inFlow then return
  let lexer ← get
  match lexer.indents with
  | top :: rest =>
    if lexer.indent ≤ column && !top.opened then set { lexer with indent := top.parent, indents := rest }
  | [] => pure ()
  let lexer ← get
  if lexer.indent < column then
    set { lexer with indents := ⟨lexer.indent, true⟩ :: lexer.indents, indent := (column : Int) }
    putBefore slot? token

/-- Asks the content of the innermost block collection to be indented by one column at least. -/
def rollHint : Lex Unit := do
  let lexer ← get
  if !lexer.inFlow && lexer.indents.head?.any (·.opened) then
    set { lexer with indents := ⟨lexer.indent, false⟩ :: lexer.indents, indent := lexer.indent + 1 }

/-! ### Keys -/

def isRequired (key : Option KeyStart) : Bool := key.any (·.required)

/-- Gives up a key that can be none any more. -/
def dropStale : Lex Unit := do
  let lexer ← get
  if let some key := lexer.keyStart then
    if lexer.isStale key then
      require !key.required
      set { lexer with keyStart := none }

/-- Remembers that a key may start here. -/
def saveKeyStart : Lex Unit := modify fun lexer =>
  if lexer.keyAllowed then
    let c := lexer.cursor
    let required := !lexer.inFlow && lexer.indent == c.column && lexer.indents.head?.any (·.opened)
    { lexer with keyStart := some ⟨c.index, c.line, c.column, required, lexer.nextSlot⟩ }
  else lexer

def dropKeyStart : Lex Unit := do
  require !(isRequired (← get).keyStart)
  modify ({ · with keyStart := none })

/-! ### What lies between tokens -/

def toLineEnd : Lex Cursor.Passed := do part (← cursor).toLineEnd?

/-- Passes blanks, comments and line breaks. A tab is no indentation. -/
def skipGap : Nat → Lex Unit
  | 0 => pure ()
  | fuel + 1 => do
    let lexer ← get
    let c := lexer.cursor
    match c.peek? with
    | none => pure ()
    | some ch =>
      if ch == '\t' && !lexer.indents.isEmpty && c.fresh && c.column < lexer.indent then
        let _ ← toLineEnd
        require (endsLine (← cursor).peek?)
        skipGap fuel
      else if isBlank ch then
        moveTo c.passBlanks
        skipGap fuel
      else if isBreak ch then
        moveTo c.passBreak
        if !lexer.inFlow then allowKey true
        skipGap fuel
      else if ch == '#' then
        moveTo c.passLine
        skipGap fuel

def toToken : Lex Unit := do skipGap ((← cursor).rest.length + 1)

/-- Passes the white space that has to follow a question mark. -/
def skipAfterQuestion : Nat → Lex Unit
  | 0 => pure ()
  | fuel + 1 => do
    let c ← cursor
    match c.peek? with
    | some ' ' => moveTo c.passBlanks; skipAfterQuestion fuel
    | some '#' => moveTo c.passLine; skipAfterQuestion fuel
    | some ch =>
      if isBreak ch then
        moveTo c.passBreak
        if !(← inFlow) then allowKey true
        skipAfterQuestion fuel
    | none => pure ()

/-! ### The tokens -/

/-- Ends the pair without braces on this level, if there is one. -/
def endLoosePair : Lex Unit := do
  let lexer ← get
  match lexer.loosePairs with
  | top :: rest =>
    if top = .inside lexer.depth then
      set { lexer with inFlowMapping := false, loosePairs := .possible :: rest }
      push .flowMappingEnd
  | [] => pure ()

def openFlow (bracket : Char) : Lex Unit := do
  saveKeyStart
  rollHint
  modify fun lexer =>
    { lexer with
      outerKeyStarts := lexer.keyStart :: lexer.outerKeyStarts
      keyStart := none
      keyAllowed := true
      cursor := lexer.cursor.pass }
  require ((← get).depth ≤ 255)
  if bracket == '[' then modify fun lexer => { lexer with loosePairs := .possible :: lexer.loosePairs }
  else modify ({ · with inFlowMapping := true })
  let _ ← toLineEnd
  push (if bracket == '[' then .flowSequenceStart else .flowMappingStart)

/-- Reads a closing bracket or brace. Whether it closes what was opened, and anything at all, shows when the
tokens are put together. -/
def closeFlow (bracket : Char) : Lex Unit := do
  dropKeyStart
  let isSequence := bracket == ']'
  if isSequence then
    endLoosePair
    modify fun lexer => { lexer with loosePairs := lexer.loosePairs.drop 1 }
  modify fun lexer =>
    { lexer with
      keyStart := lexer.outerKeyStarts.head?.join
      outerKeyStarts := lexer.outerKeyStarts.drop 1
      keyAllowed := false
      cursor := lexer.cursor.pass }
  let _ ← toLineEnd
  if ← inFlow then modify fun lexer => { lexer with adjacentAt := lexer.cursor.index }
  push (if isSequence then .flowSequenceEnd else .flowMappingEnd)

def flowEntry : Lex Unit := do
  dropKeyStart
  allowKey true
  endLoosePair
  moveTo (← cursor).pass
  let _ ← toLineEnd
  push .flowEntry

/-- Whether the last token belongs to the node that comes, and stands at the start of a line. -/
def marginMark (lexer : Lexer) : Bool :=
  match lexer.slots.head? with
  | some ⟨_, _, .anchor _, 0⟩ | some ⟨_, _, .tag .., 0⟩ => true
  | _ => false

def blockEntry : Lex Unit := do
  let lexer ← get
  let column := lexer.cursor.column
  require (!lexer.inFlow && lexer.keyAllowed)
  require !(column == 0 && lexer.indent > -1 && marginMark lexer)
  moveTo lexer.cursor.pass
  roll column none .blockSequenceStart
  let passed ← toLineEnd
  let c ← cursor
  require !(passed.tab && c.peek? == some '-' && endsWord (c.ahead? 1))
  if c.peek?.any fun ch => isBreak ch || isFlow ch then rollHint
  dropKeyStart
  allowKey true
  push .blockEntry

def question : Lex Unit := do
  let lexer ← get
  let flow := lexer.inFlow
  if flow then set { lexer with inFlowMapping := true }
  else
    require lexer.keyAllowed
    roll lexer.cursor.column none .blockMappingStart
  dropKeyStart
  allowKey !flow
  let c := (← cursor).pass
  require (c.peek?.any fun ch => ch == ' ' || isBreak ch)
  moveTo c
  skipAfterQuestion (c.rest.length + 1)
  require ((← cursor).peek? != some '\t')
  push .key

def colon : Lex Unit := do
  let lexer ← get
  let start := lexer.cursor
  let flow := lexer.inFlow
  let loose := !lexer.loosePairs.isEmpty && !lexer.inFlowMapping
  if loose then set { lexer with loosePairs := .inside lexer.depth :: lexer.loosePairs.drop 1 }
  moveTo start.pass
  if start.pass.peek? == some '\t' then
    let passed ← toLineEnd
    require (passed.space || !((← cursor).peek?.any isWordChar))
  match lexer.keyStart with
  | some key =>
    putBefore (some key.slot) .key
    if loose then
      require !(key.line < start.line)
      putBefore (some key.slot) .flowMappingStart
    roll key.column (some key.slot) .blockMappingStart
    rollHint
    modify ({ · with keyStart := none, keyAllowed := false })
  | none =>
    if loose then push .flowMappingStart
    if !flow then
      require lexer.keyAllowed
      roll start.column none .blockMappingStart
    rollHint
    allowKey !flow
  push .value

/-- Reads a token of a node, where a key may start. -/
def node (read : Lex Token) (keyAfter : Bool := false) : Lex Unit := do
  saveKeyStart
  allowKey keyAfter
  let column := (← cursor).column
  let token ← read
  push token column

def name : Lex Text := do
  let c := (← cursor).pass
  let (name, c) := c.takeWhile fun ch => !isBlank ch && !isBreak ch && !isFlow ch && ch != '\ufeff'
  require (name != [])
  moveTo c
  return name

def tag : Lex Token := do
  let (handle, suffix) ← part (Tag.read? (← inFlow) (← cursor))
  return .tag handle suffix

def plain : Lex Token := do
  unrollHints
  let content ← part (Plain.read? ⟨← inFlow, (← get).indent + 1⟩ (← cursor))
  if (← cursor).fresh then allowKey true
  return .scalar .plain content

def quoted (double : Bool) : Lex Token := do
  let content ← part (Quoted.read? double (← inFlow) (← get).indent (← cursor))
  toToken
  modify fun lexer => { lexer with adjacentAt := lexer.cursor.index }
  return .scalar .quoted content

def block (literal : Bool) : Lex Token := do
  unrollHints
  part (Block.read? literal (← get).indent (← cursor).pass)

/-- Ends everything that is open before a mark or a directive. -/
def endDocument : Lex Unit := do
  unroll (-1)
  dropKeyStart
  allowKey false

def documentMark (token : Token) : Lex Unit := do
  endDocument
  moveTo ((← cursor).pass 3)
  push token

def versionNumber? (c : Cursor) : Option Cursor :=
  let (digits, c) := c.takeWhile Char.isDigit
  if digits = [] || digits.length > 9 then none else some c

def version? (c : Cursor) : Option (Unit × Cursor) := do
  let (_, c) := c.takeWhile isBlank
  let c ← versionNumber? c
  if c.peek? == some '.' then return ((), ← versionNumber? c.pass) else none

def directive : Lex Unit := do
  endDocument
  let (word, c) := (← cursor).pass.takeWhile isWordChar
  require (word != [] && endsWord c.peek?)
  moveTo c
  let token ←
    if word = "YAML".toList then
      part (version? c)
      pure .versionDirective
    else if word = "TAG".toList then
      let (handle, start) ← part (Tag.declaration? c)
      pure (.tagDirective handle start)
    else
      moveTo c.passLine
      pure (.tagDirective [] [])
  let _ ← toLineEnd
  let c ← cursor
  require (c.peek?.any isBreak)
  moveTo c.passBreak
  push token

/-- Reads one token, which starts with `ch`. -/
def token (ch : Char) : Lex Unit := do
  let lexer ← get
  let c := lexer.cursor
  let flow := lexer.inFlow
  let after := c.ahead? 1
  require !(c.column < lexer.indent && !(flow && (ch == ']' || ch == '\x7d' || ch == ',')))
  match ch with
  | '[' => openFlow '['
  | '\x7b' => openFlow '\x7b'
  | ']' => closeFlow ']'
  | '\x7d' => closeFlow '\x7d'
  | ',' => flowEntry
  | '*' => node (.aliasOf <$> name)
  | '&' => node (.anchor <$> name)
  | '!' => node tag
  | '\'' => node (quoted false)
  | '"' => node (quoted true)
  | '%' | '@' | '\x60' => refuse
  | '-' => if endsWord after then blockEntry else node plain
  | '?' => if endsWord after then question else node plain
  | ':' =>
    if endsWord after then colon
    else if flow && (after.any isFlow || c.index == lexer.adjacentAt) then
      require (c.index == lexer.adjacentAt || !(after == some '[' || after == some '\x7b'))
      colon
    else node plain
  | '|' => if flow then node plain else node (block true) true
  | '>' => if flow then node plain else node (block false) true
  | _ => node plain

/-- Ends the text. Flow collections that are still open are no concern of this. -/
def finish : Lex Unit := do
  require !(isRequired (← get).keyStart)
  unroll (-1)

/-- Reads on to the next token, and tells whether there is one. -/
def advance : Lex Bool := do
  toToken
  dropStale
  unroll (← cursor).column
  let c ← cursor
  match c.peek? with
  | none => finish
  | some ch =>
    if c.column == 0 && ch == '%' then directive
    else if c.column == 0 && c.atMark '-' then documentMark .documentStart
    else if c.column == 0 && c.atMark '.' then
      documentMark .documentEnd
      let _ ← toLineEnd
      require (endsLine (← cursor).peek?)
    else token ch
  return c.peek?.isSome

end Lex

/-- The tokens of what is left of a text. Each step passes a character at least, and the last finds the end. -/
def Lexer.tokens : Nat → Lexer → Tokens
  | 0, lexer => ⟨lexer.settled, false⟩
  | fuel + 1, lexer =>
    match Lex.advance.run lexer with
    | some (true, lexer) => lexer.tokens fuel
    | some (false, lexer) => ⟨tokensOf lexer.slots, true⟩
    | none => ⟨lexer.settled, false⟩

/-- The tokens of a text. -/
def tokens (t : Text) : Tokens := Lexer.tokens (t.length + 2) { cursor := { rest := t } }

end LayeredConfig.Yaml
