import LayeredConfig.Yaml.Token

/-! The tree of nodes that the tokens of a document write. An alias stands for a copy of the node that its
anchor names. -/

namespace LayeredConfig.Yaml

/-- What a tag says about a scalar. -/
inductive Kind where
  | untagged
  /-- It is null, whatever it says. -/
  | null
  /-- It writes the bytes of a text. -/
  | binary
  /-- It has a type that a configuration cannot keep. -/
  | typed
  /-- Nothing that matters. -/
  | other
  deriving DecidableEq, Repr

mutual

inductive Tree where
  | scalar (kind : Kind) (style : Style) (content : Text)
  | sequence (items : Trees)
  | mapping (pairs : Pairs)
  deriving Repr

inductive Trees where
  | nil
  | cons (first : Tree) (rest : Trees)
  deriving Repr

inductive Pairs where
  | nil
  | cons (key value : Tree) (rest : Pairs)
  deriving Repr

end

def Trees.toList : Trees → List Tree
  | nil => []
  | cons first rest => first :: rest.toList

def Trees.ofList : List Tree → Trees
  | [] => nil
  | first :: rest => cons first (ofList rest)

def Pairs.toList : Pairs → List (Tree × Tree)
  | nil => []
  | cons key value rest => (key, value) :: rest.toList

def Pairs.ofList : List (Tree × Tree) → Pairs
  | [] => nil
  | (key, value) :: rest => cons key value (ofList rest)

mutual

/-- The number of scalars and of starts and ends of collections. -/
def Tree.size : Tree → Nat
  | .scalar .. => 1
  | .sequence items => items.size + 2
  | .mapping pairs => pairs.size + 2

def Trees.size : Trees → Nat
  | .nil => 0
  | .cons first rest => first.size + rest.size

def Pairs.size : Pairs → Nat
  | .nil => 0
  | .cons key value rest => key.size + value.size + rest.size

end

mutual

def Tree.depth : Tree → Nat
  | .scalar .. => 1
  | .sequence items => items.depth + 1
  | .mapping pairs => pairs.depth + 1

def Trees.depth : Trees → Nat
  | .nil => 0
  | .cons first rest => max first.depth rest.depth

def Pairs.depth : Pairs → Nat
  | .nil => 0
  | .cons key value rest => max (max key.depth value.depth) rest.depth

end

mutual

/-- Whether two nodes are the same as keys: quotes make no difference, what the tags say does. -/
def Tree.sameKey : Tree → Tree → Bool
  | .scalar kind _ content, .scalar kind' _ content' => kind == kind' && content == content'
  | .sequence items, .sequence items' => items.sameKeys items'
  | .mapping pairs, .mapping pairs' => pairs.sameKeys pairs'
  | _, _ => false

def Trees.sameKeys : Trees → Trees → Bool
  | .nil, .nil => true
  | .cons first rest, .cons first' rest' => first.sameKey first' && rest.sameKeys rest'
  | _, _ => false

def Pairs.sameKeys : Pairs → Pairs → Bool
  | .nil, .nil => true
  | .cons key value rest, .cons key' value' rest' =>
    key.sameKey key' && value.sameKey value' && rest.sameKeys rest'
  | _, _ => false

end

/-- A node that has a name; it is open until it is read to its end. -/
structure Anchor where
  number : Nat
  name : Text
  node? : Option Tree

/-- What is left to read, and what was declared before. -/
structure Reader where
  tokens : List Token
  /-- Whether the text ends with the last token. If not, the text can be read no further. -/
  complete : Bool
  /-- The tag handle that was declared last, and the start that it stands for. -/
  handle? : Option (Text × Text) := none
  /-- The anchors, the latest first. -/
  anchors : List Anchor := []
  /-- How many aliases were read. -/
  aliases : Nat := 0
  /-- The size of all nodes that aliases stood for. -/
  copied : Nat := 0
  /-- How many collections are around the current node. -/
  depth : Nat := 0

/-- Aliases may not copy more than this. -/
def mostCopied : Nat := 1000000

/-- Collections may not be nested deeper than this. -/
def mostNested : Nat := 2000

/-- A document may have this many aliases, whatever they name. -/
def freeAliases : Nat := 99

/-- A document with more aliases than that may not have more of them than this for each anchor. -/
def aliasesPerAnchor : Nat := 10

abbrev Read := StateT Reader Option

namespace Read

def refuse {α : Type} : Read α := fun _ => none

def require (p : Bool) : Read Unit := if p then pure () else refuse

/-- The next token. There is none at the end of the text. -/
def peek? : Read (Option Token) := do
  let reader ← get
  require (reader.complete || !reader.tokens.isEmpty)
  return reader.tokens.head?

def skip : Read Unit := modify fun reader => { reader with tokens := reader.tokens.drop 1 }

/-- Whether the next token is one of those given. -/
def next (tokens : List Token) : Read Bool := return (← peek?).any fun token => tokens.contains token

/-- Passes the next token when it is the one given. -/
def passes (token : Token) : Read Bool := do
  if ← next [token] then
    skip
    return true
  else return false

/-- The node that is understood where none is written. -/
def empty : Tree := .scalar .untagged .plain ['~']

def schemaStart : Text := "tag:yaml.org,2002:".toList

/-- The names of the types that a configuration cannot keep. -/
def typedNames : List Text :=
  ["int", "float", "bool", "timestamp", "time", "seq", "map", "degrees", "radians"].map String.toList

def kindOfName (name : Text) : Kind :=
  if name = "null".toList then .null
  else if name = "binary".toList then .binary
  else if typedNames.contains name then .typed
  else .other

/-- What a name says that stands behind `start` and an exclamation mark. -/
def kindBehind (start tag : Text) : Kind :=
  let start := start ++ ['!']
  if start.isPrefixOf tag then kindOfName (tag.drop start.length) else .other

/-- What a tag says: the start that its handle stands for, an exclamation mark and the suffix. An exclamation
mark that is the whole start is not written twice. The names of types stand behind the start of the
schema, or behind one exclamation mark or two. -/
def kindOfTag (start suffix : Text) : Kind :=
  let tag := if start = ['!'] then '!' :: suffix else start ++ '!' :: suffix
  let kinds := [schemaStart, ['!'], []].map (kindBehind · tag)
  (kinds.find? (· ≠ .other)).getD .other

/-- What a tag says. A handle has to be declared, or to be one of those that always are. -/
def kindOf (handle suffix : Text) : Read Kind := do
  match (← get).handle? with
  | some (declared, start) => if declared = handle then return kindOfTag start suffix
  | none => pure ()
  if handle = "!!".toList then return kindOfTag schemaStart suffix
  require (handle.length < 2)
  return kindOfTag handle suffix

/-- Registers an anchor, and gives its number. -/
def openAnchor (name : Text) : Read Nat := do
  let number := (← get).anchors.length
  modify fun reader => { reader with anchors := ⟨number, name, none⟩ :: reader.anchors }
  return number

def closeAnchor (number : Nat) (node : Tree) : Read Unit :=
  modify fun reader =>
    { reader with
      anchors := reader.anchors.map fun anchor =>
        if anchor.number = number then { anchor with node? := some node } else anchor }

def copyOf (name : Text) : Read Tree := do
  let reader ← get
  match (reader.anchors.find? fun anchor => anchor.name = name).bind (·.node?) with
  | none => refuse
  | some node =>
    let copied := reader.copied + node.size
    require (copied ≤ mostCopied)
    set { reader with copied, aliases := reader.aliases + 1 }
    return node

/-- Reads what is in a collection. -/
def within {α : Type} (read : Read α) : Read α := do
  let depth := (← get).depth
  require (depth < mostNested)
  modify ({ · with depth := depth + 1 })
  let parts ← read
  modify ({ · with depth })
  return parts

/-- A scalar with what is before it. In quotes and with a name, an empty text counts as one without quotes. -/
def scalar (anchor? : Option Nat) (kind? : Option Kind) (style : Style) (content : Text) : Tree :=
  let style := if anchor?.isSome && style = .quoted && content = [] then .plain else style
  .scalar (kind?.getD .untagged) style content

/-- The anchor and the tag before a node, in either order. -/
def marks : Read (Option Nat × Option Kind) := do
  match ← peek? with
  | some (.anchor name) =>
    skip
    let number ← openAnchor name
    match ← peek? with
    | some (.tag handle suffix) => skip; return (some number, some (← kindOf handle suffix))
    | _ => return (some number, none)
  | some (.tag handle suffix) =>
    skip
    let kind ← kindOf handle suffix
    match ← peek? with
    | some (.anchor name) => skip; return (some (← openAnchor name), some kind)
    | _ => return (none, some kind)
  | _ => return (none, none)

mutual

/-- A node. In `block` context it may be a block collection, and where `indentless` is allowed a sequence
may stand in the column of the mapping around it. Each call spends one unit of fuel. -/
def node : Nat → (block indentless : Bool) → Read Tree
  | 0, _, _ => refuse
  | fuel + 1, block, indentless => do
    if let some (.aliasOf name) ← peek? then
      skip
      return ← copyOf name
    let (anchor?, kind?) ← marks
    let tree ← match ← peek? with
      | some (.scalar style content) =>
        skip
        pure (scalar anchor? kind? style content)
      | some .unindented => refuse
      | some .flowSequenceStart => skip; (.sequence ∘ .ofList) <$> within (flowSequence fuel true)
      | some .flowMappingStart => skip; (.mapping ∘ .ofList) <$> within (flowMapping fuel true)
      | some .blockSequenceStart =>
        if block then skip; (.sequence ∘ .ofList) <$> within (blockSequence fuel) else absent anchor? kind?
      | some .blockMappingStart =>
        if block then skip; (.mapping ∘ .ofList) <$> within (blockMapping fuel) else absent anchor? kind?
      | some .blockEntry =>
        if indentless then (.sequence ∘ .ofList) <$> within (indentlessSequence fuel)
        else absent anchor? kind?
      | _ => absent anchor? kind?
    if let some number := anchor? then closeAnchor number tree
    return tree
where
  /-- The node behind an anchor or a tag that nothing follows. -/
  absent (anchor? : Option Nat) (kind? : Option Kind) : Read Tree :=
    if anchor?.isNone && kind?.isNone then refuse else return scalar anchor? kind? .plain []

def nodeUnless (ends : List Token) : Nat → (block indentless : Bool) → Read Tree
  | 0, _, _ => refuse
  | fuel + 1, block, indentless => do
    if ← next ends then return empty else node fuel block indentless

def blockSequence : Nat → Read (List Tree)
  | 0 => refuse
  | fuel + 1 => do
    if ← passes .blockEnd then return []
    if ← passes .blockEntry then
      let item ← nodeUnless [.blockEntry, .blockEnd] fuel true false
      return item :: (← blockSequence fuel)
    else refuse

def indentlessSequence : Nat → Read (List Tree)
  | 0 => refuse
  | fuel + 1 => do
    if ← passes .blockEntry then
      let item ← nodeUnless [.blockEntry, .key, .value, .blockEnd] fuel true false
      return item :: (← indentlessSequence fuel)
    else return []

def blockMapping : Nat → Read (List (Tree × Tree))
  | 0 => refuse
  | fuel + 1 => do
    let ends : List Token := [.key, .value, .blockEnd]
    if ← passes .blockEnd then return []
    let key ← if ← passes .key then nodeUnless ends fuel true true
      else if ← next [.value] then pure empty
      else refuse
    let value ← if ← passes .value then nodeUnless ends fuel true true else pure empty
    return (key, value) :: (← blockMapping fuel)

/-- The pairs up to the closing brace. -/
def flowMapping : Nat → (first : Bool) → Read (List (Tree × Tree))
  | 0, _ => refuse
  | fuel + 1, first => do
    if ← passes .flowMappingEnd then return []
    if !first then require (← passes .flowEntry)
    if ← passes .flowMappingEnd then return []
    let ends : List Token := [.flowEntry, .flowMappingEnd]
    let value : Read Tree := do
      if ← passes .value then nodeUnless ends fuel false false else return empty
    let pair ← if ← passes .key then
        let key ← nodeUnless (.value :: ends) fuel false false
        pure (key, ← value)
      else if ← next [.value] then pure (empty, ← value)
      else pure (← node fuel false false, empty)
    return pair :: (← flowMapping fuel false)

/-- The items up to the closing bracket. A key among them starts a mapping of one pair. -/
def flowSequence : Nat → (first : Bool) → Read (List Tree)
  | 0, _ => refuse
  | fuel + 1, first => do
    if ← passes .flowSequenceEnd then return []
    if !first then require (← passes .flowEntry)
    if ← passes .flowSequenceEnd then return []
    let ends : List Token := [.flowEntry, .flowSequenceEnd]
    let item ← if ← passes .key then
        within do
          let key ← if ← next (.value :: ends) then
              skip
              pure empty
            else node fuel false false
          let value ← if ← passes .value then nodeUnless ends fuel false false else pure empty
          return .mapping (.cons key value .nil)
      else node fuel false false
    return item :: (← flowSequence fuel false)

end

def skipDocumentEnds : Nat → Read Unit
  | 0 => pure ()
  | fuel + 1 => do if ← passes .documentEnd then skipDocumentEnds fuel

/-- The directives before a document. The version may be told once. Only the last directive is kept, and a
directive that is no tag handle declares an empty one. -/
def directives : Nat → (version : Bool) → Read Unit
  | 0, _ => refuse
  | fuel + 1, version => do
    match ← peek? with
    | some .versionDirective =>
      require !version
      modify ({ · with handle? := none })
      skip
      directives fuel true
    | some (.tagDirective handle start) =>
      modify ({ · with handle? := some (handle, start) })
      skip
      directives fuel version
    | _ => pure ()

/-- Whether directives, and the mark of a document's start behind them, come next. The version may be told
once. -/
def directsDocument (version : Bool) : List Token → Bool
  | .documentStart :: _ => true
  | .versionDirective :: rest => !version && directsDocument true rest
  | .tagDirective .. :: rest => directsDocument version rest
  | _ => false

/-- Whether another document comes behind the mark of a document's end. -/
def startsDocument : List Token → Bool
  | [] => false
  | .documentEnd :: rest => startsDocument rest
  | .versionDirective :: rest => directsDocument true rest
  | .tagDirective _ _ :: rest => directsDocument false rest
  | _ => true

/-- Whether a document that ends here is the only one. Without a mark of its end, a document ends where its
root does; what follows it then counts for nothing, if it can be read at all and is no mark of another
document. -/
def standsAlone : Read Bool := do
  match ← peek? with
  | some .documentEnd => return !startsDocument (← get).tokens
  | some .documentStart | some .versionDirective | some (.tagDirective ..) => return false
  | _ => return true

/-- The root of the only document, if there is one. -/
def document : Read (Option Tree) := do
  let size := (← get).tokens.length + 1
  skipDocumentEnds size
  match ← peek? with
  | none => return none
  | some first =>
    directives size false
    let explicit ← passes .documentStart
    let directed := match first with
      | .versionDirective | .tagDirective .. => true
      | _ => false
    require (explicit || !directed)
    let blank := match ← peek? with
      | none | some .documentStart | some .documentEnd | some .versionDirective | some (.tagDirective ..) => true
      | _ => false
    let root ← if explicit && blank then pure empty else node (3 * size + 3) true false
    require (← standsAlone)
    let reader ← get
    require (reader.aliases ≤ freeAliases || reader.aliases ≤ aliasesPerAnchor * reader.anchors.length)
    return some root

end Read

/-- The root of the document that the tokens write. A second document is refused. -/
def Tree.ofTokens? (tokens : Tokens) : Option (Option Tree) :=
  (Read.document.run { tokens := tokens.list, complete := tokens.complete }).map Prod.fst

end LayeredConfig.Yaml
