import DataBinding.Text.Basic

/-!
# Addresses

An anchored path as an address in the data: everything, an explicit null, a place that is skipped,
or one element with a path inside it.
-/

namespace DataBinding

inductive Address where
  /-- Every element, written as the empty path. -/
  | everything
  /-- An explicit null, written `%null%`. -/
  | null
  /-- A place that is skipped, written `%%`. -/
  | skip
  /-- One element, written `%index%`, and behind a dot the path inside it. -/
  | element (index : UInt64) (inside : String)
deriving DecidableEq

inductive AddressError where
  | notAnchored (path : String)
  | unterminatedAnchor (path : String)
  | malformedIndex (path index : String)
deriving DecidableEq

namespace AddressError

def message : AddressError → String
  | .notAnchored path => "Path '" ++ path ++ "' is not anchored with a '%' index"
  | .unterminatedAnchor path => "Path '" ++ path ++ "' has an unterminated '%' anchor"
  | .malformedIndex path index => "Path '" ++ path ++ "' has a malformed index '" ++ index ++ "'"

end AddressError

namespace Address

def nullToken : String :=
  "%null%"

def skipToken : String :=
  "%%"

def dropDot : List Char → List Char
  | '.' :: rest => rest
  | cs => cs

/-- An address between percent signs, given what follows the first of them. -/
def parseAnchor (path : String) (rest : List Char) : Except AddressError Address :=
  match Text.cutFirst? '%' rest with
  | none => .error (.unterminatedAnchor path)
  | some (digits, tail) =>
    match Text.index? digits with
    | none => .error (.malformedIndex path (String.ofList digits))
    | some index => .ok (.element index (String.ofList (dropDot tail)))

def parse (path : String) : Except AddressError Address :=
  if path = "" then .ok .everything
  else if path = nullToken then .ok .null
  else if path = skipToken then .ok .skip
  else match path.toList with
    | '%' :: rest => parseAnchor path rest
    | _ => .error (.notAnchored path)

def anchorText (index : UInt64) : String :=
  "%" ++ Nat.repr index.toNat ++ "%"

def text : Address → String
  | .everything => ""
  | .null => nullToken
  | .skip => skipToken
  | .element index inside =>
    if inside = "" then anchorText index else anchorText index ++ "." ++ inside

/-- Element and path inside it, of an address that has both. -/
def element? : Address → Option (UInt64 × String)
  | .element index inside => some (index, inside)
  | _ => none

end Address

end DataBinding
