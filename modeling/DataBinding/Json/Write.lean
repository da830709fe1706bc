import DataBinding.Json.Lookup

/-!
# Writing inside a JSON value

A write sets the member or item that a relative path leads to. It goes down segment by segment:
members missing on the way are added as objects before the write goes on inside them, missing items
do not appear. Writing nothing removes a member and turns an item into null. What a write leaves
behind is returned with its failure, if there is one.
-/

namespace DataBinding

inductive WriteError where
  | notAContainer (path segment : String)
  | emptyPath (path : String)
  | invalidSegment (path segment : String)
deriving DecidableEq

namespace WriteError

def message : WriteError → String
  | .notAContainer path segment =>
    "Segment '" ++ segment ++ "' of path '" ++ path ++ "' does not address a container"
  | .emptyPath path => "Path '" ++ path ++ "' is empty and cannot be assigned"
  | .invalidSegment path segment =>
    "Segment '" ++ segment ++ "' of path '" ++ path ++ "' is not a valid array index"

end WriteError

namespace Json

/-- Position of the array item that a segment selects. -/
def position? (items : List Json) (segment : String) : Option Nat :=
  match Text.index? segment.toList with
  | some index => if index.toNat < items.length then some index.toNat else none
  | none => none

end Json

/-- What a write leaves behind, and why it failed if it did. -/
structure Rewrite where
  json : Json
  failure : Option WriteError := none

namespace Json

/-- Sets or removes one member or item. -/
def setChild (path segment : String) (value : Option Json) : Json → Rewrite
  | .object members =>
    match value with
    | some json => { json := .object (Members.insert segment json members) }
    | none => { json := .object (Members.erase segment members) }
  | .array items =>
    match position? items segment with
    | some index => { json := .array (items.set index (value.getD .null)) }
    | none => ⟨.array items, some (.invalidSegment path segment)⟩
  | json => ⟨json, some (.notAContainer path segment)⟩

/-- Writes below the segments that lead to the last one. -/
def writeAt (path : String) (value : Option Json) : List String → Json → Rewrite
  | [], json => ⟨json, some (.emptyPath path)⟩
  | [last], json => json.setChild path last value
  | segment :: next :: rest, json =>
    match json with
    | .object members =>
      match Members.get? segment members with
      | some inner =>
        let below := writeAt path value (next :: rest) inner
        ⟨.object (Members.replace segment below.json members), below.failure⟩
      | none =>
        let below := writeAt path value (next :: rest) (.object [])
        ⟨.object (Members.insert segment below.json members), below.failure⟩
    | .array items =>
      match item? items segment, position? items segment with
      | some inner, some index =>
        let below := writeAt path value (next :: rest) inner
        ⟨.array (items.set index below.json), below.failure⟩
      | _, _ => ⟨.array items, some (.invalidSegment path segment)⟩
    | json => ⟨json, some (.notAContainer path segment)⟩

def assign (path : String) (value : Value) (json : Json) : Rewrite :=
  writeAt path value.toJson? (segments path) json

end Json

end DataBinding
