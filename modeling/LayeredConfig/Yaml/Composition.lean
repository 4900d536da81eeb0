import LayeredConfig.Yaml.Base64
import LayeredConfig.Yaml.Node
import LayeredConfig.Yaml.Scalar
import LayeredConfig.Yaml.Tree

/-! From the tree that is written to the node that is meant: scalars get their meaning, and merge keys
bring the members of other mappings. -/

namespace LayeredConfig.Yaml

/-- The text of a scalar that is there, unless its tag demands too much of it. -/
def scalarText? (kind : Kind) (style : Style) (content : Text) : Option Text :=
  match kind with
  | .null => some []
  | .binary => Base64.decode? content
  | .typed => none
  | .untagged | .other => some (if style = .plain then Scalar.spelling content else content)

/-- Whether a scalar stands for nothing where a node may be missing. -/
def isMissing (kind : Kind) (style : Style) (content : Text) : Bool :=
  kind = .null || (style ≠ .quoted && content = []) || (style = .plain && Scalar.isNull content)

/-- The meaning of a scalar that is a root or the value of a member. -/
def scalarNode? (kind : Kind) (style : Style) (content : Text) : Option Node :=
  if isMissing kind style content then some .null else (scalarText? kind style content).map .scalar

/-- The text of a key. Keys are not interpreted. -/
def keyText? : Tree → Option Text
  | .scalar kind _ content =>
    match kind with
    | .null | .typed => none
    | .binary => Base64.decode? content
    | .untagged | .other => some content
  | _ => none

def isMergeKey : Tree → Bool
  | .scalar .untagged .plain content => content == "<<".toList
  | _ => false

/-- The pairs that a value brings to the mapping that merges it: its own ones, then those it merges
itself. Of several values the later come first. -/
def mergedPairs? : Nat → Tree → Option (List (Tree × Tree))
  | 0, _ => none
  | fuel + 1, tree =>
    match tree with
    | .mapping pairs => do
      let (merges, own) := pairs.toList.partition fun pair => isMergeKey pair.1
      let merged ← (merges.map Prod.snd).reverse.mapM (mergedPairs? fuel)
      return own ++ merged.flatten
    | .sequence items => do return (← items.toList.reverse.mapM (mergedPairs? fuel)).flatten
    | .scalar _ style content => if style = .plain && Scalar.isNull content then some [] else none

def hasKey (pairs : List (Tree × Tree)) (key : Tree) : Bool := pairs.any fun pair => pair.1.sameKey key

/-- The pairs whose key is not there yet, after those that are. -/
def addNew (pairs : List (Tree × Tree)) (merged : List (Tree × Tree)) : List (Tree × Tree) :=
  merged.foldl (fun pairs pair => if hasKey pairs pair.1 then pairs else pairs ++ [pair]) pairs

def hasRepeatedKey : List (Tree × Tree) → Bool
  | [] => false
  | pair :: rest => hasKey rest pair.1 || hasRepeatedKey rest

/-- The pairs of a mapping with those that its merge keys bring. None of its own keys may be repeated. -/
def effectivePairs? (depth : Nat) (pairs : Pairs) : Option (List (Tree × Tree)) := do
  let (merges, own) := pairs.toList.partition fun pair => isMergeKey pair.1
  if hasRepeatedKey own then none
  let merged ← (merges.map Prod.snd).reverse.mapM (mergedPairs? depth)
  return addNew own merged.flatten

/-- Whether a node below a sequence is sound. Nothing may be missing there, and its members need no names. -/
def sound : Nat → Tree → Bool
  | 0, _ => false
  | fuel + 1, tree =>
    match tree with
    | .scalar kind style content => (scalarText? kind style content).isSome
    | .sequence items => items.toList.all (sound fuel)
    | .mapping pairs =>
      match effectivePairs? fuel pairs with
      | none => false
      | some pairs => pairs.all fun (key, value) => sound fuel key && sound fuel value

/-- The node that a tree of the given depth means. -/
def Node.ofTreeAt? : Nat → Tree → Option Node
  | 0, _ => none
  | fuel + 1, tree =>
    match tree with
    | .scalar kind style content => scalarNode? kind style content
    | .sequence items => if items.toList.all (sound fuel) then some .sequence else none
    | .mapping pairs => do
      let members ← (← effectivePairs? fuel pairs).mapM fun (key, value) => do
        return (← keyText? key, ← Node.ofTreeAt? fuel value)
      return .mapping (.ofList members)

def Node.ofTree? (tree : Tree) : Option Node := Node.ofTreeAt? tree.depth tree

end LayeredConfig.Yaml
