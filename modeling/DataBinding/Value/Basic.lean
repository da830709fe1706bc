import DataBinding.Json.Basic
import DataBinding.Text.Basic

/-!
# Values

What reading a path yields. `undefined` means that nothing is there, `null` is an explicit null, and
all numbers are binary64.
-/

namespace DataBinding

inductive Value where
  | undefined
  | null
  | bool (b : Bool)
  | number (x : Binary64)
  | string (s : String)
  | array (items : List Value)
  | object (members : List (String × Value))
deriving Inhabited

namespace Value

def isUndefined : Value → Bool
  | .undefined => true
  | _ => false

def isNullish : Value → Bool
  | .undefined | .null => true
  | _ => false

def isObject : Value → Bool
  | .object _ => true
  | _ => false

/-- Arrays and objects, the values that a write can land inside. -/
def isContainer : Value → Bool
  | .array _ | .object _ => true
  | _ => false

/-- The largest length; a number beyond it counts as this one. -/
def maxLength : Nat :=
  UInt64.size - 1

/-- The length that a number stands for: a whole number that is not negative. -/
def lengthOf? : Binary64 → Option Nat
  | .finite x =>
    if x.isNonnegative && x.isWhole then some (min x.truncate.toNat maxLength) else none
  | _ => none

/-- Anything with a length: texts count 16-bit units, arrays their items, and objects carry a number
named `length`. -/
def length? : Value → Option Nat
  | .string s => some (Text.units s)
  | .array items => some items.length
  | .object members =>
    match Members.get? "length" members with
    | some (.number x) => lengthOf? x
    | _ => none
  | _ => none

/-- Nullish, or of length zero. -/
def isEmpty (v : Value) : Bool :=
  v.isNullish || v.length? = some 0

/-- Null and the empty text become `undefined`, everything else stays. -/
def blankReduced : Value → Value
  | .undefined | .null => .undefined
  | .string s => if s = "" then .undefined else .string s
  | v => v

def string? : Value → Option String
  | .string s => some s
  | _ => none

mutual

/-- Equality of values. Numbers are compared as numbers, so `nan` differs from itself. -/
def same : Value → Value → Bool
  | .undefined, .undefined => true
  | .null, .null => true
  | .bool p, .bool q => p = q
  | .number x, .number y => x.same y
  | .string s, .string t => s = t
  | .array xs, .array ys => sameItems xs ys
  | .object xs, .object ys => sameMembers xs ys
  | _, _ => false

def sameItems : List Value → List Value → Bool
  | [], [] => true
  | x :: xs, y :: ys => same x y && sameItems xs ys
  | _, _ => false

def sameMembers : List (String × Value) → List (String × Value) → Bool
  | [], [] => true
  | (k, x) :: xs, (l, y) :: ys => k = l && same x y && sameMembers xs ys
  | _, _ => false

end

end Value

end DataBinding
