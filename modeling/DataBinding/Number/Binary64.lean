/-!
# Binary64 numbers

Finite numbers are kept by their three fields, so that equal numbers with equal signs are equal
terms. Every magnitude is a whole number of units of 2⁻¹⁰⁷⁴, which makes all arithmetic exact:
an operation forms a quotient of whole numbers and rounds it once, to nearest with ties to even.
-/

namespace DataBinding

/-- Two to the power of 52, the number of fractions. -/
abbrev fractionCount : Nat :=
  0x10000000000000

/-- A finite binary64 number: sign, biased exponent and fraction. -/
structure Finite where
  negative : Bool
  exponent : Fin 2047
  fraction : Fin fractionCount
deriving DecidableEq, Inhabited

namespace Finite

/-- The significand as a whole number, with the leading bit of normal numbers. -/
def significand (x : Finite) : Nat :=
  if x.exponent.val = 0 then x.fraction.val else x.fraction.val + fractionCount

/-- The magnitude is the significand times two to this power, in units. -/
def scale (x : Finite) : Nat :=
  x.exponent.val - 1

/-- Number of units in one. -/
def one : Nat :=
  1 <<< 1074

/-- The magnitude in units of 2⁻¹⁰⁷⁴. -/
def magnitude (x : Finite) : Nat :=
  x.significand <<< x.scale

def isZero (x : Finite) : Bool :=
  x.magnitude = 0

def zero (negative : Bool) : Finite :=
  ⟨negative, 0, 0⟩

/-- The whole number nearest to a quotient, an exact half going to the even neighbour. -/
def nearest (num den : Nat) : Nat :=
  let whole := num / den
  let rest := num % den
  if 2 * rest < den then whole
  else if den < 2 * rest then whole + 1
  else whole + whole % 2

/-- The number nearest to `num / den` units, if it is within range. Exponent and fraction are the
quotient and remainder of one count of representable magnitudes, so a significand that rounds up to
the next power of two carries into the exponent. -/
def round? (negative : Bool) (num den : Nat) : Option Finite :=
  let scale := (num / den).log2 - 52
  let position := scale * fractionCount + nearest num (den <<< scale)
  if inRange : position / fractionCount < 2047 then
    some ⟨negative, ⟨position / fractionCount, inRange⟩,
      ⟨position % fractionCount, Nat.mod_lt _ (by decide)⟩⟩
  else none

/-- The number nearest to a whole number. -/
def ofNat? (n : Nat) : Option Finite :=
  round? false (n * one) 1

def mul? (x y : Finite) : Option Finite :=
  round? (x.negative != y.negative) (x.magnitude * y.magnitude) one

/-- A quotient; the divisor is not zero where this is used. -/
def div? (x y : Finite) : Option Finite :=
  round? (x.negative != y.negative) (x.magnitude * one) y.magnitude

/-- No fractional part. -/
def isWhole (x : Finite) : Bool :=
  x.magnitude % one = 0

/-- The whole part, rounded toward zero. -/
def truncate (x : Finite) : Int :=
  let whole : Int := (x.magnitude / one : Nat)
  if x.negative then -whole else whole

/-- Zero or more; both zeros count. -/
def isNonnegative (x : Finite) : Bool :=
  !x.negative || x.isZero

/-- Comparison as numbers: the two zeros are equal. -/
def same (x y : Finite) : Bool :=
  x = y || (x.isZero && y.isZero)

end Finite

/-- A binary64 number. All not-a-number patterns are one value. -/
inductive Binary64 where
  | nan
  | infinity (negative : Bool)
  | finite (x : Finite)
deriving DecidableEq, Inhabited

namespace Binary64

/-- The number nearest to an integer. -/
def ofInt (n : Int) : Binary64 :=
  match Finite.round? (n < 0) (n.natAbs * Finite.one) 1 with
  | some x => .finite x
  | none => .infinity (n < 0)

/-- Numeric equality: nothing equals `nan`, and the two zeros are equal. -/
def same : Binary64 → Binary64 → Bool
  | .infinity p, .infinity q => p = q
  | .finite x, .finite y => x.same y
  | _, _ => false

end Binary64

end DataBinding
