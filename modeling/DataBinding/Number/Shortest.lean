import DataBinding.Number.Binary64

/-!
# Shortest decimal digits

Among all decimals that read back as a given finite number, the ones with the fewest digits are
considered, and of those the nearest to the number. The search walks the decimal grids from coarse
to fine and looks at the two grid points that enclose the number; all comparisons are between whole
numbers.
-/

namespace DataBinding

/-- A decimal `0.d₁d₂… × 10 ^ point`. -/
structure Decimal where
  digits : List Char
  point : Int
deriving DecidableEq

/-- Which of two equally near decimals is taken. -/
inductive Tie where
  | even
  | up
deriving DecidableEq

namespace Finite

/-- Quarter units in one: the ends of a rounding interval are whole numbers of quarter units. -/
private def quarters : Nat :=
  4 * one

/-- Decimal places that resolve every magnitude of the format. -/
private def places : Nat :=
  340

/-- The magnitudes that round to a number, in quarter units; `closed` tells whether the ends do. -/
structure Interval where
  low : Nat
  center : Nat
  high : Nat
  closed : Bool

/-- Half the gap to each neighbour. The gap below a power of two is half the gap above it. -/
def interval (x : Finite) : Interval :=
  let unit := 1 <<< x.scale
  let center := 4 * x.magnitude
  let below := if x.fraction.val = 0 ∧ 1 < x.exponent.val then unit else 2 * unit
  ⟨center - below, center, center + 2 * unit, x.significand % 2 = 0⟩

def Interval.holds (r : Interval) (point step : Nat) : Bool :=
  let here := point * step
  let low := r.low * Nat.pow 10 places
  let high := r.high * Nat.pow 10 places
  if r.closed then low ≤ here && here ≤ high else low < here && here < high

/-- The grid point to take on the grid of a given step, if one of the two around the number reads
back as the number. -/
def Interval.pick? (r : Interval) (tie : Tie) (step : Nat) : Option Nat :=
  let center := r.center * Nat.pow 10 places
  let below := center / step
  let above := below + 1
  match r.holds below step, r.holds above step with
  | false, false => none
  | true, false => some below
  | false, true => some above
  | true, true =>
    let left := center - below * step
    let right := above * step - center
    if left < right then some below
    else if right < left then some above
    else match tie with
      | .up => some above
      | .even => if below % 2 = 0 then some below else some above

/-- The digits of a grid point without the zeros at its end, and where its decimal point is. -/
private def decimalOf (point : Nat) (exponent : Int) : Decimal :=
  let digits := Nat.toDigits 10 point
  let significant := (digits.reverse.dropWhile (· = '0')).reverse
  ⟨significant, exponent + digits.length⟩

private def searchShortest (r : Interval) (tie : Tie) (size : Nat) : Nat → Nat → Decimal
  | _, 0 => ⟨[], 0⟩
  | count, more + 1 =>
    let exponent := size - count
    match r.pick? tie (Nat.pow 10 exponent * quarters) with
    | some point => decimalOf point (exponent - places)
    | none => searchShortest r tie size (count + 1) more

/-- The shortest decimal that reads back as the magnitude of `x`. Seventeen digits suffice. -/
def shortest (tie : Tie) (x : Finite) : Decimal :=
  if x.isZero then ⟨['0'], 1⟩
  else
    let r := x.interval
    let size := (Nat.toDigits 10 (r.center * Nat.pow 10 places / quarters)).length
    searchShortest r tie size 1 17

private theorem isDigit_of_mem_decimalOf {point : Nat} {exponent : Int} {c : Char}
    (inside : c ∈ (decimalOf point exponent).digits) : c.isDigit = true := by
  rw [decimalOf, List.mem_reverse] at inside
  have kept := (List.dropWhile_sublist _).subset inside
  rw [List.mem_reverse] at kept
  exact Nat.isDigit_of_mem_toDigits (by decide) (by decide) kept

private theorem isDigit_of_mem_searchShortest {r : Interval} {tie : Tie} {size count more : Nat}
    {c : Char} (inside : c ∈ (searchShortest r tie size count more).digits) : c.isDigit = true := by
  induction more generalizing count with
  | zero => cases inside
  | succ more ih =>
    rw [searchShortest] at inside
    split at inside
    · exact isDigit_of_mem_decimalOf inside
    · exact ih inside

theorem isDigit_of_mem_shortest {tie : Tie} {x : Finite} {c : Char}
    (inside : c ∈ (x.shortest tie).digits) : c.isDigit = true := by
  rw [shortest] at inside
  split at inside
  · rw [List.mem_singleton.1 inside]
    decide
  · exact isDigit_of_mem_searchShortest inside

end Finite

end DataBinding
