import LayeredConfig.OrderedMap
import LayeredConfig.Typed.Reader

/-! Properties as a tree: the points in a key nest dictionaries, and entries that share a beginning share
the dictionaries along it. -/

namespace LayeredConfig.Typed

/-- The components of a key at its points, as far as the first empty one. -/
def path (key : Text) : List Text := (Text.splitOn '.' key).takeWhile (· ≠ [])

/-- The value under dictionaries that lead to it. -/
def nest : List Text → Value → Value
  | [], value => value
  | key :: path, value => .dict (.cons key (nest path value) .nil)

mutual

/-- Writes `incoming` over `existing`. Where both hold a dictionary the two are united; otherwise the
incoming value is kept. -/
def Dict.merge (existing : Dict) : Dict → Dict
  | .nil => existing
  | .cons key value rest => (existing.insert key (value.over (existing.get? key))).merge rest

/-- The value that takes the place of another. -/
def Value.over (value : Value) (existing? : Option Value) : Value :=
  match value with
  | .dict incoming =>
    match existing? with
    | some (.dict existing) => .dict (existing.merge incoming)
    | _ => .dict incoming
  | other => other

end

/-- The tree of the entries, each written over those before it; or the first key under which a value that
is no dictionary would be the whole tree. -/
def treeOf (tree : Dict) : List (Text × Text) → Except Text Dict
  | [] => .ok tree
  | (key, raw) :: rest =>
    match nest (path key) (Reader.read raw) with
    | .dict entries => treeOf (tree.merge entries) rest
    | _ => .error key

def tree (properties : OrderedMap Text) : Except Text Dict := treeOf .nil properties.entries

end LayeredConfig.Typed
