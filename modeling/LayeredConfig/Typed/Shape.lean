import LayeredConfig.Text.Quoted
import LayeredConfig.Decimal.Shortest
import LayeredConfig.Typed.Nesting

/-! Shapes that a program expects its configuration to have, and the values that fit them. A value that
does not fit is reported with the path to the place where it went wrong. -/

namespace LayeredConfig.Typed

mutual

inductive Shape where
  | any
  | bool
  | text
  /-- Whole numbers of the given width. -/
  | unsigned (bits : Nat)
  | signed (bits : Nat)
  | optional (of : Shape)
  | sequence (of : Shape)
  /-- Any keys, with values of one shape. -/
  | table (of : Shape)
  | record (name : Text) (fields : Fields)
  deriving DecidableEq, Repr

inductive Fields where
  | nil
  | cons (name : Text) (shape : Shape) (rest : Fields)
  deriving DecidableEq, Repr

end

/-- Why a value does not fit. -/
inductive Cause where
  | wrongType (found : Value) (expected : Text)
  | wrongValue (found : Value) (expected : Text)
  | wrongLength (found : Nat) (expected : Text)
  | missingField (name : Text)
  deriving DecidableEq, Repr

structure Mismatch where
  /-- The keys and positions that lead to the value. -/
  path : List Text
  cause : Cause
  deriving DecidableEq, Repr

/-- A reason why properties cannot be read in a shape. -/
inductive ExtractError where
  /-- The value under this key would be the whole tree, and is no dictionary. -/
  | notADictionary (key : Text)
  | mismatch (found : Mismatch)
  deriving DecidableEq, Repr

abbrev Fit (α : Type) := Except Mismatch α

namespace Fit

def fail {α : Type} (cause : Cause) : Fit α := .error ⟨[], cause⟩

/-- Reports a mismatch as lying under `key`. -/
def within {α : Type} (key : Text) (fit : Fit α) : Fit α :=
  fit.mapError fun mismatch => { mismatch with path := key :: mismatch.path }

end Fit

namespace Shape

/-- What a message calls a shape. -/
def expectation : Shape → Text
  | any => "any value".toList
  | bool => "a boolean".toList
  | text => "a string".toList
  | unsigned bits => 'u' :: Text.ofNat bits
  | signed bits => 'i' :: Text.ofNat bits
  | optional of => of.expectation
  | sequence _ => "a sequence".toList
  | table _ => "a map".toList
  | record name _ => "struct ".toList ++ name

/-- A whole number that has to lie in a range. -/
def within (low high : Int) (shape : Shape) (wrap : Int → Value) (found : Value) (n : Int) : Fit Value :=
  if low ≤ n ∧ n ≤ high then .ok (wrap n) else Fit.fail (.wrongValue found shape.expectation)

def fitNumber (low high : Int) (shape : Shape) (wrap : Int → Value) : Value → Fit Value
  | .unsigned n => within low high shape wrap (.unsigned n) n
  | .signed n => within low high shape wrap (.signed n) n
  | found => Fit.fail (.wrongType found shape.expectation)

end Shape

def Items.fit (fitFirst : Value → Fit Value) : Nat → Items → Fit Items
  | _, .nil => .ok .nil
  | index, .cons first rest => do
    let first ← Fit.within (Text.ofNat index) (fitFirst first)
    return .cons first (← Items.fit fitFirst (index + 1) rest)

/-- Fits the entries whose key has a shape, and leaves the others out. -/
def Dict.fit (shapeOf : Text → Option (Value → Fit Value)) : Dict → Fit Dict
  | .nil => .ok .nil
  | .cons key value rest =>
    match shapeOf key with
    | none => Dict.fit shapeOf rest
    | some fitValue => do
      let value ← Fit.within key (fitValue value)
      return .cons key value (← Dict.fit shapeOf rest)

def Fields.size : Fields → Nat
  | .nil => 0
  | .cons _ _ rest => rest.size + 1

/-- What a message expects of a record that is written as an array. -/
def Fields.expectation (name : Text) (fields : Fields) : Text :=
  "struct ".toList ++ name ++ " with ".toList ++ Text.ofNat fields.size ++
    (if fields.size = 1 then " element".toList else " elements".toList)

mutual

/-- The value, as the shape sees it: a character may serve as a text, and fields that a record does not
have are left out. -/
def Shape.fit : Shape → Value → Fit Value
  | .any, value => .ok value
  | .bool, .bool holds => .ok (.bool holds)
  | .text, .text content => .ok (.text content)
  | .text, .char c => .ok (.text [c])
  | .unsigned bits, value => Shape.fitNumber 0 (2 ^ bits - 1) (.unsigned bits) (fun n => .unsigned n.toNat) value
  | .signed bits, value =>
    Shape.fitNumber (-2 ^ (bits - 1)) (2 ^ (bits - 1) - 1) (.signed bits) .signed value
  | .optional of, value => of.fit value
  | .sequence of, .array items => do return .array (← items.fit of.fit 0)
  | .table of, .dict entries => do return .dict (← entries.fit fun _ => some of.fit)
  | .record _ fields, .dict entries => do
    let fitted ← entries.fit fields.reader?
    fields.present entries
    return .dict fitted
  | .record name fields, .array items => do
    return .dict (← fields.fitInOrder (fields.expectation name) 0 items)
  | shape, value => Fit.fail (.wrongType value shape.expectation)

/-- How the field of a name is read. -/
def Fields.reader? : Fields → Text → Option (Value → Fit Value)
  | .nil, _ => none
  | .cons name shape rest, key => if key = name then some shape.fit else rest.reader? key

/-- Every field has to be there, except the optional ones. -/
def Fields.present : Fields → Dict → Fit Unit
  | .nil, _ => .ok ()
  | .cons name shape rest, entries =>
    match entries.get? name, shape with
    | none, .optional _ => rest.present entries
    | none, _ => Fit.fail (.missingField name)
    | some _, _ => rest.present entries

/-- Reads the fields from the items of an array, in their order. -/
def Fields.fitInOrder : Fields → Text → Nat → Items → Fit Dict
  | .nil, _, _, _ => .ok .nil
  | .cons name shape rest, expected, index, .cons first items => do
    let value ← Fit.within (Text.ofNat index) (shape.fit first)
    return (← rest.fitInOrder expected (index + 1) items).insert name value
  | .cons .., expected, index, .nil => Fit.fail (.wrongLength index expected)

end

/-- The properties in a shape. -/
def extract (shape : Shape) (properties : OrderedMap Text) : Except ExtractError Value :=
  match tree properties with
  | .error key => .error (.notADictionary key)
  | .ok entries => (shape.fit (.dict entries)).mapError .mismatch

/-- What a message calls a value. -/
def Value.description : Value → Text
  | .text content => "string ".toList ++ Text.quoted content
  | .bool holds => "bool ".toList ++ (if holds then "true".toList else "false".toList)
  | .char c => "string ".toList ++ Text.quoted [c]
  | .unsigned n => "unsigned int `".toList ++ Text.ofNat n ++ ['`']
  | .signed n => "signed int `".toList ++ Text.ofInt n ++ ['`']
  | .float x => "float `".toList ++ Decimal.NumeralStyle.message.render x ++ ['`']
  | .array _ => "sequence".toList
  | .dict _ => "map".toList

namespace Cause

def message : Cause → Text
  | .wrongType found expected =>
    "invalid type: found ".toList ++ found.description ++ ", expected ".toList ++ expected
  | .wrongValue found expected =>
    "invalid value ".toList ++ found.description ++ ", expected ".toList ++ expected
  | .wrongLength found expected =>
    "invalid length ".toList ++ Text.ofNat found ++ ", expected ".toList ++ expected
  | .missingField name => "missing field `".toList ++ name ++ ['`']

end Cause

/-- The name of the properties in messages. -/
def source : Text := " in propstack properties".toList

def Mismatch.message (mismatch : Mismatch) : Text :=
  match mismatch.path with
  | [] => mismatch.cause.message
  | path =>
    mismatch.cause.message ++ " for key ".toList ++
      Text.quoted (['.'].intercalate ("default".toList :: path)) ++ source

def ExtractError.message : ExtractError → Text
  | .notADictionary key => "property key `".toList ++ key ++ "` produced a non-object value".toList ++ source
  | .mismatch found => found.message

end LayeredConfig.Typed
