import Scriptlet.Number.Shortest

/-!
# Numbers as text

Numbers are double-precision. A number is written with the fewest decimal digits that read
back as the same number, of those the nearest to it, and never with an exponent. It is read
from a whole part and a fraction in decimal digits, rounded to the nearest double.
-/

namespace Scriptlet.Number

/-- What the bits of a double stand for; a finite one is `significand * 2 ^ exponent`. -/
inductive Form where
  | nan
  | infinite (negative : Bool)
  | finite (negative : Bool) (significand : Nat) (exponent : Int)
  deriving DecidableEq, Repr

/-- The bit that every normal significand leads with and no stored fraction holds. -/
def leadingBit : Nat := Nat.pow 2 52

/-- The parts of a double: from the top one bit of sign, eleven of exponent, the fraction. -/
def Form.ofBits (bits : Nat) : Form :=
  let fraction := bits % leadingBit
  let biased := bits / leadingBit % 2048
  let negative := bits / leadingBit / 2048 % 2 == 1
  if biased = 2047 then if fraction = 0 then .infinite negative else .nan
  else if biased = 0 then .finite negative fraction (-1074)
  else .finite negative (leadingBit + fraction) ((biased : Int) - 1075)

def form (x : Float) : Form := Form.ofBits x.toBits.toNat

/-- The reals that round to `significand * 2 ^ exponent`. The gap below a power of two is half
the gap above it, except at the smallest exponent; ends belong to even significands. -/
def rounding (significand : Nat) (exponent : Int) : Interval :=
  let scale := Nat.pow 2 (exponent - 2).toNat
  let gapBelow := if significand = leadingBit ∧ -1074 < exponent then 1 else 2
  { den := Nat.pow 2 (2 - exponent).toNat
    point := 4 * significand * scale
    lo := (4 * significand - gapBelow) * scale
    hi := (4 * significand + 2) * scale
    closed := significand % 2 == 0 }

/-- The digits of a decimal with its point in place and no exponent. -/
def Decimal.positional (d : Decimal) : List Char :=
  let digits := Nat.toDigits 10 d.coefficient
  if 0 ≤ d.exponent then digits ++ List.replicate d.exponent.toNat '0'
  else
    let places := (-d.exponent).toNat
    let padded := List.replicate (places + 1 - digits.length) '0' ++ digits
    padded.take (padded.length - places) ++ '.' :: padded.drop (padded.length - places)

def Form.chars : Form → List Char
  | .nan => ['N', 'a', 'N']
  | .infinite negative => sign negative ++ ['i', 'n', 'f']
  | .finite negative significand exponent =>
    sign negative ++
      if significand = 0 then ['0'] else (rounding significand exponent).shortest.positional
where
  sign (negative : Bool) : List Char := if negative then ['-'] else []

/-- A number as `print` shows it. -/
def text (x : Float) : String := String.ofList (form x).chars

/-- The natural number written by decimal digits. -/
def digitsValue (digits : List Char) : Nat :=
  digits.foldl (fun n c => 10 * n + (c.toNat - '0'.toNat)) 0

/-- The double nearest to `whole.fraction`, both in decimal digits. -/
def ofDigits (whole fraction : List Char) : Float :=
  Float.ofScientific (digitsValue (whole ++ fraction)) true fraction.length

end Scriptlet.Number
