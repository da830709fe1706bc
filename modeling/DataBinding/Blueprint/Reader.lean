import DataBinding.Blueprint.Field

/-!
# Reading blueprints

A blueprint is read from an object, whose members are visited in order and skipped when their name
is not known, or from a row of values in the order of the fields. The first problem met is reported.
Reading from text looks at known fields only; what stands in the others has to follow the grammar
and nothing more.
-/

namespace DataBinding

namespace Traits

def readText : Json → Except BlueprintError String
  | .string s => .ok s
  | found => .error (.invalidType found .text)

def readOptional : Json → Except BlueprintError (Option String)
  | .null => .ok none
  | json => (readText json).map some

def readFlag : Json → Except BlueprintError Bool
  | .bool b => .ok b
  | found => .error (.invalidType found .flag)

def readTexts : Json → Except BlueprintError (List String)
  | .array items => items.mapM readText
  | found => .error (.invalidType found .sequence)

/-- Sets one field; those that hold blueprints are left alone. -/
def read (t : Traits) (json : Json) : Field → Except BlueprintError Traits
  | .kind => (readText json).map fun kind => { t with kind }
  | .key => (readOptional json).map fun key => { t with key }
  | .dataPath => (readText json).map fun dataPath => { t with dataPath }
  | .hidden => (readFlag json).map fun hidden => { t with hidden }
  | .hideIfEmpty => (readFlag json).map fun hideIfEmpty => { t with hideIfEmpty }
  | .hideIfUndefined => (readFlag json).map fun hideIfUndefined => { t with hideIfUndefined }
  | .label => (readOptional json).map fun label => { t with label }
  | .title => (readOptional json).map fun title => { t with title }
  | .text => (readOptional json).map fun text => { t with text }
  | .required => (readFlag json).map fun required => { t with required }
  | .component => (readOptional json).map fun component => { t with component }
  | .action => (readOptional json).map fun action => { t with action }
  | .validators => (readTexts json).map fun validators => { t with validators }
  | .children | .holder _ => .ok t

end Traits

namespace Blueprint

/-- A blueprint of which some fields have been read. -/
structure Draft where
  seen : List Field := []
  blueprint : Blueprint := ofKind ""

/-- A draft is complete when its kind is known. -/
def Draft.complete (draft : Draft) : Except BlueprintError Blueprint :=
  if .kind ∈ draft.seen then .ok draft.blueprint else .error .missingKind

mutual

def ofJson : Json → Except BlueprintError Blueprint
  | .object members => do (← readMembers {} members).complete
  | .array items => readRow items.length Field.all (ofKind "") items
  | found => .error (.invalidType found .blueprint)

/-- Reads one field into a blueprint. -/
def readField (b : Blueprint) (field : Field) : Json → Except BlueprintError Blueprint
  | .array items =>
    match field with
    | .children => do return { b with children := ← readList items }
    | .holder role => do
      return b.setHolder role (some (← readRow items.length Field.all (ofKind "") items))
    | _ => do return { b with traits := ← b.traits.read (.array items) field }
  | .object members =>
    match field with
    | .children => .error (.invalidType (.object members) .sequence)
    | .holder role => do
      return b.setHolder role (some (← (← readMembers {} members).complete))
    | _ => do return { b with traits := ← b.traits.read (.object members) field }
  | json =>
    match field, json with
    | .children, found => .error (.invalidType found .sequence)
    | .holder role, .null => .ok (b.setHolder role none)
    | .holder _, found => .error (.invalidType found .blueprint)
    | _, json => do return { b with traits := ← b.traits.read json field }

def readMembers (draft : Draft) : List (String × Json) → Except BlueprintError Draft
  | [] => .ok draft
  | (name, json) :: rest =>
    match Field.ofName? name with
    | none => readMembers draft rest
    | some field =>
      if field ∈ draft.seen then .error (.duplicateField field)
      else do
        let blueprint ← readField draft.blueprint field json
        readMembers ⟨field :: draft.seen, blueprint⟩ rest

def readList : List Json → Except BlueprintError (List Blueprint)
  | [] => .ok []
  | json :: rest => do
    let first ← ofJson json
    return first :: (← readList rest)

/-- Reads a row of values as the given fields. -/
def readRow (length : Nat) (fields : List Field) (b : Blueprint) :
    List Json → Except BlueprintError Blueprint
  | [] => if length = 0 then .error .emptySequence else .ok b
  | json :: rest =>
    match fields with
    | [] => .error (.surplusElements length)
    | field :: fields => do
      let b ← readField b field json
      readRow length fields b rest

end

/-- The known fields of a text, as long as no object gives one of them twice. -/
def knownFields : Nat → RawJson → Except BlueprintError Json
  | depth + 1, .array items => (items.mapM (knownFields depth)).map .array
  | depth + 1, .object members => do
    let named ← members.mapM fun (pieces, raw) => do
      match RawJson.name pieces with
      | .error cause => throw (.unreadable cause)
      | .ok name => return (name, raw)
    let known := named.filterMap fun (name, raw) =>
      (Field.ofName? name).map fun field => (name, field, raw)
    let read ← known.foldlM (fun (read : Members Json) (name, field, raw) => do
      if (read.get? name).isSome then throw (.duplicateField field)
      return read.insert name (← knownFields depth raw)) []
    return .object read
  | depth, raw =>
    match raw.toJson depth with
    | .ok json => .ok json
    | .error cause => .error (.unreadable cause)

def ofText (text : String) : Except BlueprintError Blueprint := do
  match RawJson.read text with
  | .error cause => throw (.unreadable cause)
  | .ok raw => ofJson (← knownFields Json.fileDepth raw)

end Blueprint

end DataBinding
