import DataBinding.Json.Basic
import DataBinding.Number.Layout

/-!
# JSON text

The compact form has no blanks; the indented form puts every item and member on a line of its own.
In strings only quotes, backslashes and controls below the space are escaped.
-/

namespace DataBinding

namespace JsonNumber

def text : JsonNumber → String
  | .int n _ _ => toString n
  | .float x => NumberLayout.json.text x

end JsonNumber

namespace Json

private def hexDigits (c : Char) : List Char :=
  let digits := Nat.toDigits 16 c.toNat
  List.replicate (4 - digits.length) '0' ++ digits

def escapeChar (c : Char) : String :=
  if c = '\"' then "\\\""
  else if c = '\\' then "\\\\"
  else if c = '\x08' then "\\b"
  else if c = '\x0c' then "\\f"
  else if c = '\n' then "\\n"
  else if c = '\r' then "\\r"
  else if c = '\t' then "\\t"
  else if c.toNat < 0x20 then "\\u" ++ String.ofList (hexDigits c)
  else String.singleton c

def stringText (s : String) : String :=
  "\"" ++ String.join (s.toList.map escapeChar) ++ "\""

def memberText (name value : String) : String :=
  stringText name ++ ":" ++ value

mutual

/-- The text without blanks. -/
def compact : Json → String
  | .null => "null"
  | .bool true => "true"
  | .bool false => "false"
  | .number n => n.text
  | .string s => stringText s
  | .array items => "[" ++ String.intercalate "," (compactItems items) ++ "]"
  | .object members => "\x7b" ++ String.intercalate "," (compactMembers members) ++ "\x7d"

def compactItems : List Json → List String
  | [] => []
  | item :: rest => item.compact :: compactItems rest

def compactMembers : List (String × Json) → List String
  | [] => []
  | (name, value) :: rest => memberText name value.compact :: compactMembers rest

end

private def blanks (depth : Nat) : String :=
  String.join (List.replicate depth "  ")

/-- Lines between an opening and a closing bracket, one step further in. -/
private def block (opening closing : String) (depth : Nat) : List String → String
  | [] => opening ++ closing
  | lines =>
    opening ++ "\n" ++ String.intercalate ",\n" (lines.map (blanks (depth + 1) ++ ·)) ++ "\n" ++
      blanks depth ++ closing

mutual

private def indentedAt (depth : Nat) : Json → String
  | .null => "null"
  | .bool true => "true"
  | .bool false => "false"
  | .number n => n.text
  | .string s => stringText s
  | .array items => block "[" "]" depth (indentedItems (depth + 1) items)
  | .object members => block "\x7b" "\x7d" depth (indentedMembers (depth + 1) members)

private def indentedItems (depth : Nat) : List Json → List String
  | [] => []
  | item :: rest => indentedAt depth item :: indentedItems depth rest

private def indentedMembers (depth : Nat) : List (String × Json) → List String
  | [] => []
  | (name, value) :: rest =>
    (stringText name ++ ": " ++ indentedAt depth value) :: indentedMembers depth rest

end

/-- The text with two blanks of indentation for each level. -/
def indented (json : Json) : String :=
  indentedAt 0 json

end Json

end DataBinding
