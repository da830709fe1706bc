import DataBinding.Forest.Lineage
import DataBinding.Forest.Planting
import DataBinding.Forest.Survey

/-!
# Resolution bundles

A bundle lets a remote workflow be entered again. It is stored as an object with the definition, the
data and, for a part of the definition, the identity of that part. A definition without a bundle of
its own borrows the one of its nearest owner that has one.
-/

namespace DataBinding

/-- Why JSON is not a bundle. -/
inductive BundleError where
  | notAnObject
  | missing (field : String)
  | dataNotArray (found : Json)
  | constraintNotText (found : Json)
  | definition (cause : DefinitionError)

namespace BundleError

private def invalid (field problem : String) : String :=
  "Bundle field '" ++ field ++ "' is invalid: " ++ problem

def message : BundleError → String
  | .notAnObject => invalid "bundle" "expected a JSON object"
  | .missing field => "Bundle is missing the '" ++ field ++ "' field"
  | .dataNotArray found => invalid "data" ("expected an array, found " ++ found.compact)
  | .constraintNotText found => invalid "constraint" ("expected a string, found " ++ found.compact)
  | .definition cause => cause.message

end BundleError

namespace Bundle

def definitionJson (f : Forest) : Except Fault Json :=
  match f.root? with
  | some root => f.toJson root
  | none => .ok .null

def constraintField : Option String → Members Json
  | some constraint => [("constraint", .string constraint)]
  | none => []

def toJson (b : Bundle Forest) : Except Fault Json := do
  let definition ← definitionJson b.definition
  return .object (constraintField b.constraint ++
    [("data", b.data.toJson), ("definition", definition)])

def readDefinition (v : Vocabulary) (fields : Members Json) : Except BundleError Forest :=
  match fields.get? "definition" with
  | none => .error (.missing "definition")
  | some .null => .ok .empty
  | some json =>
    match Forest.ofJson v json with
    | .ok f => .ok f
    | .error cause => .error (.definition cause)

def readData (fields : Members Json) : Except BundleError Data :=
  match fields.get? "data" with
  | none => .error (.missing "data")
  | some (.array items) => .ok (Data.ofJson (.array items))
  | some found => .error (.dataNotArray found)

def readConstraint (fields : Members Json) : Except BundleError (Option String) :=
  match fields.get? "constraint" with
  | none | some .null => .ok none
  | some (.string constraint) => .ok (some constraint)
  | some found => .error (.constraintNotText found)

/-- Reads a stored bundle, its definition with the names of a vocabulary. -/
def ofJson (v : Vocabulary) : Json → Except BundleError (Bundle Forest)
  | .object fields => do
    let definition ← readDefinition v fields
    let data ← readData fields
    let constraint ← readConstraint fields
    return { definition, data, constraint }
  | _ => .error .notAnObject

end Bundle

namespace Forest

def setBundle (f : Forest) (h : Handle) (b : Bundle Forest) : Except Fault Forest :=
  f.modify h fun d => { d with bundle := some b }

/-- The first definition of a lineage that has a bundle, with that bundle. -/
def bundleAlong (f : Forest) : List Handle → Except Fault (Option (Handle × Bundle Forest))
  | [] => .ok none
  | h :: rest => do
    match (← f.find h).bundle with
    | some b => return some (h, b)
    | none => f.bundleAlong rest

/-- The bundle with which a definition can be resolved again. One borrowed from an owner is
constrained to the definition that borrows it. -/
def bundleFor (f : Forest) (h : Handle) : Except Fault (Option (Bundle Forest)) := do
  match ← f.bundleAlong (← f.lineage h) with
  | none => return none
  | some (owner, b) =>
    if owner = h then return some b
    return some { b with constraint := some (← f.identity h) }

end Forest

end DataBinding
