import DataBinding.Value.Basic
import DataBinding.Number.Layout
import DataBinding.Text.Quoted

/-!
# Values in messages

Texts are quoted, member names are bare, and whole numbers are shown as integers of 64 bits; those
beyond the range of such integers show its nearest end.
-/

namespace DataBinding

namespace Binary64

/-- The nearest integer of 64 bits. -/
def clampInt (n : Int) : Int :=
  max (-0x8000000000000000) (min n 0x7fffffffffffffff)

def text : Binary64 → String
  | .nan => "NaN"
  | .infinity false => "inf"
  | .infinity true => "-inf"
  | .finite x => if x.isWhole then toString (clampInt x.truncate) else NumberLayout.plain.text x

end Binary64

namespace Value

mutual

def text : Value → String
  | .undefined => "undefined"
  | .null => "null"
  | .bool true => "true"
  | .bool false => "false"
  | .number x => x.text
  | .string s => Text.quote s
  | .array items => "[" ++ String.intercalate ", " (itemTexts items) ++ "]"
  | .object members => "\x7b" ++ String.intercalate ", " (memberTexts members) ++ "\x7d"

def itemTexts : List Value → List String
  | [] => []
  | item :: rest => item.text :: itemTexts rest

def memberTexts : List (String × Value) → List String
  | [] => []
  | (name, value) :: rest => (name ++ ": " ++ value.text) :: memberTexts rest

end

end Value

end DataBinding
