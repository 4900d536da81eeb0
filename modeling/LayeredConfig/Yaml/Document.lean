import LayeredConfig.Text.Lines
import LayeredConfig.Yaml.Composition
import LayeredConfig.Yaml.Lexer

/-! Reading a document as configuration entries. -/

namespace LayeredConfig.Yaml

/-- Why a document holds no entries. -/
inductive DocumentError where
  /-- It is not well formed. -/
  | malformed
  /-- Its root is no mapping. -/
  | sequenceRoot
  | scalarRoot
  deriving DecidableEq, Repr

def DocumentError.message : DocumentError → Text
  | .malformed => "invalid YAML".toList
  | .sequenceRoot => "expected a mapping at the document root, found a sequence".toList
  | .scalarRoot => "expected a mapping at the document root, found a scalar".toList

/-- The text without a byte order mark before it. -/
def withoutMark : Text → Text
  | '\ufeff' :: t => t
  | t => t

/-- The text that counts: everything from a zero character on does not. -/
def significant (t : Text) : Text := (withoutMark t).takeWhile (· ≠ '\x00')

/-- Whether a comment follows on a line something that has no colon. -/
def endsInComment (line : Text) : Bool :=
  match Text.splitAt? '#' line with
  | none => false
  | some (before, _) => !before.all Text.isWhite && !before.contains ':'

/-- Whether a line goes on with what the line before it says: it starts at the margin, it is no comment and
no mark of a document's start or end, and nothing before a colon is its key. -/
def carriesOn (line : Text) : Bool :=
  !line.all Text.isWhite && !line.head?.any (fun c => isBlank c || c == '#') &&
    !"---".toList.isPrefixOf line && !"...".toList.isPrefixOf line &&
    (Text.splitAt? ':' line).all fun (key, _) => key = []

/-- Whether a comment tears apart two lines that belong together. -/
def isTorn : List Text → Bool
  | line :: next :: rest => (endsInComment line && carriesOn next) || isTorn (next :: rest)
  | _ => false

/-- Whether brackets are closed that were never opened, in a text without a document. -/
def closesNothing (t : Text) : Bool := Text.holds "]]".toList t && !Text.holds "[[".toList t

/-- The node that a text writes; without a document it is null. Two closing brackets with one space
between them are refused wherever they stand, and so are lines that a comment tears apart. -/
def rootNode? (t : Text) : Option Node := do
  if Text.holds "] ]".toList t || isTorn (Text.lines (withoutMark t)) then none
  match ← Tree.ofTokens? (tokens (significant t)) with
  | none => if closesNothing t then none else return .null
  | some tree => Node.ofTree? tree

/-- The entries of a document; a blank one has none. -/
def parse (t : Text) : Except DocumentError (List (Text × Text)) :=
  if Text.trim t = [] then .ok []
  else match rootNode? t with
    | none => .error .malformed
    | some (.mapping members) => .ok (Node.mapping members).entries
    | some .null => .ok []
    | some .sequence => .error .sequenceRoot
    | some (.scalar _) => .error .scalarRoot

end LayeredConfig.Yaml
