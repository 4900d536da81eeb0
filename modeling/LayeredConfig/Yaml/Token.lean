import LayeredConfig.Text

/-! The tokens of a document. Indentation has become brackets: a block collection is a start token and an
end token, and what belongs to it lies between. A text that cannot be read to its end still has the tokens
before that place, and a document that ends among them is none the worse for it. -/

namespace LayeredConfig.Yaml

/-- How a scalar is written. Only a plain one can be something else than a text. -/
inductive Style where
  | plain
  | quoted
  | block
  deriving DecidableEq, Repr

inductive Token where
  | versionDirective
  | tagDirective (handle start : Text)
  | documentStart
  | documentEnd
  | blockSequenceStart
  | blockMappingStart
  | blockEnd
  | flowSequenceStart
  | flowSequenceEnd
  | flowMappingStart
  | flowMappingEnd
  | blockEntry
  | flowEntry
  | key
  | value
  | aliasOf (name : Text)
  | anchor (name : Text)
  | tag (handle suffix : Text)
  | scalar (style : Style) (content : Text)
  /-- A folded block scalar that is not indented. It is no node. -/
  | unindented
  deriving DecidableEq, Repr

/-- The tokens of a text, up to where it can no longer be read. -/
structure Tokens where
  list : List Token
  /-- Whether the text was read to its end. -/
  complete : Bool
  deriving DecidableEq, Repr

end LayeredConfig.Yaml
