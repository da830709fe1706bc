import DataBinding.Value.Basic

/-!
# Values and JSON

Every JSON value is a value. In the other direction `undefined` has no JSON form of its own: at the
top it yields nothing, inside arrays and objects it is written as null, and so are the numbers that
JSON does not have.
-/

namespace DataBinding

namespace Value

mutual

def ofJson : Json → Value
  | .null => .null
  | .bool b => .bool b
  | .number n => .number n.toBinary64
  | .string s => .string s
  | .array items => .array (ofJsonItems items)
  | .object members => .object (ofJsonMembers members)

def ofJsonItems : List Json → List Value
  | [] => []
  | item :: rest => ofJson item :: ofJsonItems rest

def ofJsonMembers : List (String × Json) → List (String × Value)
  | [] => []
  | (name, json) :: rest => (name, ofJson json) :: ofJsonMembers rest

end

def jsonOfNumber : Binary64 → Json
  | .finite x => .number (.float x)
  | _ => .null

mutual

/-- The JSON form inside an array or object. -/
def toNestedJson : Value → Json
  | .undefined => .null
  | .null => .null
  | .bool b => .bool b
  | .number x => jsonOfNumber x
  | .string s => .string s
  | .array items => .array (toNestedItems items)
  | .object members => .object (toNestedMembers members)

def toNestedItems : List Value → List Json
  | [] => []
  | item :: rest => toNestedJson item :: toNestedItems rest

def toNestedMembers : List (String × Value) → List (String × Json)
  | [] => []
  | (name, value) :: rest => (name, toNestedJson value) :: toNestedMembers rest

end

def toJson? : Value → Option Json
  | .undefined => none
  | v => some v.toNestedJson

theorem toJson?_eq_none_iff {v : Value} : v.toJson? = none ↔ v = .undefined := by
  cases v <;> simp [toJson?]

end Value

end DataBinding
