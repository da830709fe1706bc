import DataBinding.Text.Basic
import DataBinding.Value.Json

/-!
# Looking inside a JSON value

A relative path is a row of segments between dots; empty segments do not count. A segment names a
member of an object or the index of an array item.
-/

namespace DataBinding.Json

def segments (path : String) : List String :=
  (Text.split '.' path).filter (· ≠ "")

/-- The array item that a segment selects. -/
def item? (items : List Json) (segment : String) : Option Json :=
  (Text.index? segment.toList).bind fun index => items[index.toNat]?

/-- What one segment selects. -/
def child? (segment : String) : Json → Option Json
  | .object members => Members.get? segment members
  | .array items => item? items segment
  | _ => none

def lookup? : List String → Json → Option Json
  | [], json => some json
  | segment :: rest, json => (child? segment json).bind (lookup? rest)

/-- The value at a path; `undefined` when nothing is there. -/
def valueAt (path : String) (json : Json) : Value :=
  match lookup? (segments path) json with
  | some found => .ofJson found
  | none => .undefined

/-- The value that the path leads to up to its last dot, and the text behind that dot. -/
structure Holder where
  value : Value
  last : String

def holder (path : String) (json : Json) : Holder :=
  match Text.splitLast? '.' path with
  | some (head, last) => ⟨json.valueAt head, last⟩
  | none => ⟨json.valueAt "", path⟩

/-- Names of the members, none for anything but an object. -/
def keys : Json → List String
  | .object members => Members.keys members
  | _ => []

def eraseKey (name : String) : Json → Json
  | .object members => .object (Members.erase name members)
  | json => json

def length? (json : Json) : Option Nat :=
  (Value.ofJson json).length?

end DataBinding.Json
