import LayeredConfig.Decimal.Numeral

/-! Typed values. A dictionary lists its keys in increasing order, each one once. -/

namespace LayeredConfig.Typed

mutual

inductive Value where
  | text (content : Text)
  | bool (holds : Bool)
  | char (c : Char)
  | unsigned (n : Nat)
  | signed (i : Int)
  | float (x : Decimal.Binary64)
  | array (items : Items)
  | dict (entries : Dict)
  deriving DecidableEq, Repr

inductive Items where
  | nil
  | cons (first : Value) (rest : Items)
  deriving DecidableEq, Repr

inductive Dict where
  | nil
  | cons (key : Text) (value : Value) (rest : Dict)
  deriving DecidableEq, Repr

end

namespace Items

def toList : Items → List Value
  | nil => []
  | cons first rest => first :: rest.toList

def ofList : List Value → Items
  | [] => nil
  | first :: rest => cons first (ofList rest)

end Items

namespace Dict

def toList : Dict → List (Text × Value)
  | nil => []
  | cons key value rest => (key, value) :: rest.toList

def get? (dict : Dict) (key : Text) : Option Value := dict.toList.lookup key

/-- Writes a key in its place. -/
def insert (key : Text) (value : Value) : Dict → Dict
  | nil => cons key value nil
  | cons k v rest =>
    if key = k then cons key value rest
    else if key < k then cons key value (cons k v rest)
    else cons k v (insert key value rest)

def ofList (entries : List (Text × Value)) : Dict :=
  entries.foldl (fun dict (key, value) => dict.insert key value) nil

end Dict

end LayeredConfig.Typed
