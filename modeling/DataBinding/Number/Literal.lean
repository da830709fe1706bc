import DataBinding.Number.Binary64
import DataBinding.Text.Basic

/-!
# Number literals

A literal is the sign, the digits and the exponent of a number as written. Reading one as a binary64
number keeps as many leading digits as fit into 64 bits, drops the rest, and then scales once by a
power of ten. Both the kept digits and the power are rounded to binary64 before they are combined,
so the result may differ in the last place from the number nearest to the literal.
-/

namespace DataBinding

/-- A number as written: digits before and after the point, and the power of ten. -/
structure NumberLiteral where
  negative : Bool
  whole : List Char
  fraction : Option (List Char)
  exponent : Option Int
deriving DecidableEq

namespace NumberLiteral

/-- Digits are kept while their number stays below this bound. -/
def bound : Nat :=
  UInt64.size

/-- The number of the digits that fit, and how many are left. -/
def keep (kept : Nat) : List Char → Nat × Nat
  | [] => (kept, 0)
  | c :: rest =>
    let more := 10 * kept + Text.digitValue c
    if more < bound then keep more rest else (kept, rest.length + 1)

/-- Kept digits and the power of ten that goes with them. Digits dropped before the point raise the
power; digits kept after it lower the power. -/
def significant (x : NumberLiteral) : Nat × Int :=
  let (whole, dropped) := keep 0 x.whole
  let fraction := x.fraction.getD []
  let (kept, rest) := keep whole fraction
  (kept, (dropped : Int) - (fraction.length - rest : Nat) + x.exponent.getD 0)

private def tenTo? (power : Nat) : Option Finite :=
  Finite.ofNat? (Nat.pow 10 power)

/-- Divisions by 10³⁰⁸, the greatest power of ten in range, for as long as something is left. -/
def lowerSteps? (x : Finite) : Nat → Option Finite
  | 0 => some x
  | steps + 1 =>
    if x.isZero then some x
    else (tenTo? 308).bind fun ten => (x.div? ten).bind fun next => lowerSteps? next steps

/-- Division by a power of ten that may itself be out of range. -/
def lower? (x : Finite) (power : Nat) : Option Finite := do
  let steps := (power - 1) / 308
  let lowered ← lowerSteps? x steps
  let rest ← tenTo? (power - 308 * steps)
  lowered.div? rest

/-- Multiplication by a power of ten; fails beyond the range of the format. -/
def raise? (x : Finite) (power : Nat) : Option Finite :=
  if power ≤ 308 then (tenTo? power).bind x.mul?
  else if x.isZero then some x else none

/-- The binary64 number of a literal, if it is within range. -/
def toFinite? (x : NumberLiteral) : Option Finite := do
  let (kept, power) := x.significant
  let start ← Finite.ofNat? kept
  let magnitude ← if power < 0 then lower? start power.natAbs else raise? start power.toNat
  return { magnitude with negative := x.negative }

/-- The integer that a literal without fraction and exponent denotes. A negative zero is none. -/
def toInt? (x : NumberLiteral) : Option Int :=
  if x.fraction.isSome || x.exponent.isSome then none
  else
    let n : Int := Text.decimalValue x.whole
    if x.negative then (if n = 0 then none else some (-n)) else some n

end NumberLiteral

end DataBinding
