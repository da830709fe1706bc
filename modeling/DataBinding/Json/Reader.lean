import DataBinding.Json.Basic
import DataBinding.Json.Raw

/-!
# Reading JSON

The meaning of JSON text as a value: literals become numbers, escapes become characters, and of two
members with one name the later stays. Arrays and objects may be nested up to a given depth.
-/

namespace DataBinding

/-- Why a text is not taken as a value. -/
inductive ReadError where
  | malformed
  | tooDeep
  | numberOutOfRange
  | loneSurrogate
deriving DecidableEq

namespace ReadError

def message : ReadError → String
  | .malformed => "malformed JSON text"
  | .tooDeep => "recursion limit exceeded"
  | .numberOutOfRange => "number out of range"
  | .loneSurrogate => "lone surrogate in string"

end ReadError

namespace RawJson

/-- Reads a text that follows the grammar. -/
def read (text : String) : Except ReadError RawJson :=
  match read? text with
  | some raw => .ok raw
  | none => .error .malformed

def name (pieces : List StringPiece) : Except ReadError String :=
  match stringText? pieces with
  | some s => .ok s
  | none => .error .loneSurrogate

/-- The value of a text whose arrays and objects are nested at most `depth` times. -/
def toJson : Nat → RawJson → Except ReadError Json
  | _, .null => .ok .null
  | _, .bool b => .ok (.bool b)
  | _, .number literal =>
    match JsonNumber.ofLiteral? literal with
    | some n => .ok (.number n)
    | none => .error .numberOutOfRange
  | _, .string pieces => (name pieces).map .string
  | 0, .array _ => .error .tooDeep
  | 0, .object _ => .error .tooDeep
  | depth + 1, .array items => (items.mapM (toJson depth)).map .array
  | depth + 1, .object members => do
    let read ← members.mapM fun (pieces, raw) => do
      return (← name pieces, ← toJson depth raw)
    return .object (Members.ofList read)

end RawJson

namespace Json

/-- Nesting allowed in texts from files. -/
def fileDepth : Nat :=
  127

def read (text : String) (depth : Nat := fileDepth) : Except ReadError Json := do
  (← RawJson.read text).toJson depth

end Json

end DataBinding
