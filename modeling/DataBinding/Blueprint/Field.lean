import DataBinding.Blueprint.Basic
import DataBinding.Json.Printer
import DataBinding.Json.Reader
import DataBinding.Text.Quoted

/-!
# Fields of blueprints

The names of the fields, the order in which they are declared, and what can be wrong with a value
that is read as one of them.
-/

namespace DataBinding

/-- A field of a blueprint. -/
inductive Field where
  | kind
  | key
  | dataPath
  | hidden
  | hideIfEmpty
  | hideIfUndefined
  | label
  | title
  | text
  | required
  | component
  | action
  | validators
  | children
  | holder (role : Role)
deriving DecidableEq

namespace Field

/-- All fields in the order in which a row of values gives them. -/
def all : List Field :=
  [.kind, .key, .dataPath, .hidden, .hideIfEmpty, .hideIfUndefined, .label, .title, .text,
    .required, .component, .action, .validators, .children, .holder .header, .holder .footer,
    .holder .possibleValues, .holder .details]

def name : Field → String
  | .kind => "kind"
  | .key => "key"
  | .dataPath => "dataPath"
  | .hidden => "hidden"
  | .hideIfEmpty => "hideIfEmpty"
  | .hideIfUndefined => "hideIfUndefined"
  | .label => "label"
  | .title => "title"
  | .text => "text"
  | .required => "required"
  | .component => "component"
  | .action => "action"
  | .validators => "validators"
  | .children => "children"
  | .holder role => role.name

/-- Older names that are still read. -/
def ofOldName? : String → Option Field
  | "type" => some .kind
  | "path" => some .dataPath
  | _ => none

def ofName? (name : String) : Option Field :=
  (all.find? fun field => field.name = name) <|> ofOldName? name

end Field

/-- What a field has to be. -/
inductive Expected where
  | text
  | flag
  | sequence
  | blueprint
deriving DecidableEq

namespace Expected

def description : Expected → String
  | .text => "a string"
  | .flag => "a boolean"
  | .sequence => "a sequence"
  | .blueprint => "struct DefinitionSpec"

end Expected

/-- Why JSON is not a blueprint. -/
inductive BlueprintError where
  | invalidType (found : Json) (expected : Expected)
  | duplicateField (field : Field)
  | missingKind
  | emptySequence
  | surplusElements (length : Nat)
  | unreadable (cause : ReadError)

namespace BlueprintError

def describe : Json → String
  | .null => "null"
  | .bool true => "boolean `true`"
  | .bool false => "boolean `false`"
  | .number (.int n low high) => "integer `" ++ (JsonNumber.int n low high).text ++ "`"
  | .number (.float x) => "floating point `" ++ (JsonNumber.float x).text ++ "`"
  | .string s => "string " ++ Text.quote s
  | .array _ => "sequence"
  | .object _ => "map"

def message : BlueprintError → String
  | .invalidType found expected =>
    "invalid type: " ++ describe found ++ ", expected " ++ expected.description
  | .duplicateField field => "duplicate field `" ++ field.name ++ "`"
  | .missingKind => "missing field `kind`"
  | .emptySequence => "invalid length 0, expected struct DefinitionSpec with 18 elements"
  | .surplusElements length =>
    "invalid length " ++ Nat.repr length ++ ", expected fewer elements in array"
  | .unreadable cause => cause.message

end BlueprintError

end DataBinding
