import LayeredConfig.Text

/-! What a document holds, as far as configuration goes: mappings with scalars at their leaves. Sequences
are kept only as places without entries. -/

namespace LayeredConfig.Yaml

mutual

inductive Node where
  | mapping (members : Members)
  | sequence
  | scalar (content : Text)
  | null
  deriving DecidableEq, Repr

inductive Members where
  | nil
  | cons (key : Text) (node : Node) (rest : Members)
  deriving DecidableEq, Repr

end

namespace Members

def toList : Members → List (Text × Node)
  | nil => []
  | cons key node rest => (key, node) :: rest.toList

def ofList : List (Text × Node) → Members
  | [] => nil
  | (key, node) :: rest => cons key node (ofList rest)

end Members

/-- The name of a member below `here`. At the root, and below members without a name, it is its own key. -/
def nameBelow (here key : Text) : Text := if here = [] then key else here ++ '.' :: key

mutual

/-- The leaves below a place, each with the keys that lead to it. -/
def Node.entriesAt (here : Text) : Node → List (Text × Text)
  | .mapping members => members.entriesAt here
  | .sequence => []
  | .scalar content => [(here, content)]
  | .null => [(here, [])]

def Members.entriesAt (here : Text) : Members → List (Text × Text)
  | .nil => []
  | .cons key node rest => node.entriesAt (nameBelow here key) ++ rest.entriesAt here

end

/-- The leaves of a tree in the document's order, with null leaves as empty texts. -/
def Node.entries (node : Node) : List (Text × Text) := node.entriesAt []

end LayeredConfig.Yaml
