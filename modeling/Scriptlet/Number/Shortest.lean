/-!
# Shortest decimals

The decimal with the fewest digits inside an interval of rationals, nearest to a given point
of it. `shortest num den lo hi closed` looks for the point `num / den` in the interval from
`lo / den` to `hi / den`: it walks down the decimal grids, coarsest first, and on each grid
tries the two neighbours of the point. All arithmetic is exact.
-/

namespace Scriptlet.Number

/-- The number `coefficient * 10 ^ exponent`. -/
structure Decimal where
  coefficient : Nat
  exponent : Int
  deriving DecidableEq, Repr

/-- The same number without trailing zeros in its coefficient. -/
def Decimal.trim (coefficient : Nat) (exponent : Int) : Decimal :=
  if h : coefficient ≠ 0 ∧ coefficient % 10 = 0 then
    trim (coefficient / 10) (exponent + 1)
  else ⟨coefficient, exponent⟩
termination_by coefficient
decreasing_by omega

/-- An interval of rationals over one denominator, with a point of it. -/
structure Interval where
  den : Nat
  point : Nat
  lo : Nat
  hi : Nat
  closed : Bool
  deriving DecidableEq, Repr

namespace Interval

/-- Numerator and denominator of `c * 10 ^ p` in units of `1 / den`. -/
def onGrid (i : Interval) (p : Int) (c : Nat) : Nat × Nat :=
  (c * i.den * Nat.pow 10 p.toNat, Nat.pow 10 (-p).toNat)

/-- Whether `c * 10 ^ p` lies in the interval, ends included when it is closed. -/
def holds (i : Interval) (p : Int) (c : Nat) : Bool :=
  let (x, d) := i.onGrid p c
  if i.closed then i.lo * d ≤ x && x ≤ i.hi * d else i.lo * d < x && x < i.hi * d

/-- The greatest `c` with `c * 10 ^ p` at most the point. -/
def below (i : Interval) (p : Int) : Nat :=
  i.point * Nat.pow 10 (-p).toNat / (i.den * Nat.pow 10 p.toNat)

/-- Whether `(c + 1) * 10 ^ p` is at least as near to the point as `c * 10 ^ p`. -/
def upperNearer (i : Interval) (p : Int) (c : Nat) : Bool :=
  let (x, d) := i.onGrid p (2 * c + 1)
  x ≤ 2 * i.point * d

/-- The neighbour of the point on the grid `10 ^ p` that lies in the interval: of two the
nearer, of two equally near the upper. -/
def onGrid? (i : Interval) (p : Int) : Option Nat :=
  let c := i.below p
  match i.holds p c, i.holds p (c + 1) with
  | true, true => some (if i.upperNearer p c then c + 1 else c)
  | true, false => some c
  | false, true => some (c + 1)
  | false, false => none

/-- The first hit on the grids `10 ^ p`, `10 ^ (p - 1)`, …; after `tries` grids the point
itself is rounded down. -/
def search (i : Interval) : Nat → Int → Decimal
  | 0, p => .trim (i.below p) p
  | tries + 1, p =>
    match i.onGrid? p with
    | some c => .trim c p
    | none => search i tries (p - 1)

/-- A power of ten that is greater than the point: one above its leading digit. -/
def topExponent (i : Interval) : Int :=
  if i.den ≤ i.point then ((Nat.toDigits 10 (i.point / i.den)).length : Int)
  else 1 - ((Nat.toDigits 10 (i.den / i.point)).length : Int)

/-- The decimal of the interval with the fewest digits, seventeen at most. -/
def shortest (i : Interval) : Decimal :=
  i.search 17 (i.topExponent - 1)

end Interval
end Scriptlet.Number
