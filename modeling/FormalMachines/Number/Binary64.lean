/-!
# FormalMachines.Number.Binary64

Binary floating-point numbers of double precision, as exact values.

A finite number is `± mantissa · 2 ^ exponent`, kept in the one form the format gives
it: the mantissa has 53 bits, or fewer at the least exponent −1074.  Numbers arise by
rounding a rational to nearest (`ofRat`), a half going to the even mantissa, so two
numbers are the same value of the format exactly when they are equal here; zero keeps
its sign.
-/

namespace FormalMachines.Number

/-- A number of double precision. -/
inductive Binary64 where
  | finite (negative : Bool) (mantissa : Nat) (exponent : Int)
  | infinite (negative : Bool)
  | notANumber
  deriving DecidableEq, Repr

/-- The nearest integer; a half goes to the even neighbour. -/
def roundHalfEven (v : Rat) : Int :=
  let below := v.floor
  let rest := v - below
  if rest < 1 / 2 then below
  else if 1 / 2 < rest then below + 1
  else if below % 2 = 0 then below else below + 1

/-- The exponent `e` with `2 ^ e ≤ v < 2 ^ (e + 1)`, for a positive `v`. -/
def binaryMagnitude (v : Rat) : Int :=
  let e := (v.num.toNat.log2 : Int) - v.den.log2
  if (2 : Rat) ^ e ≤ v then e else e - 1

namespace Binary64

/-- Bits of a full mantissa. -/
def precision : Nat := 53

/-- The least exponent. -/
def minExponent : Int := -1074

/-- The greatest exponent. -/
def maxExponent : Int := 971

def zero (negative : Bool) : Binary64 := .finite negative 0 minExponent

/-- The number nearest to a non-negative rational, with the given sign. -/
def ofRat (negative : Bool) (v : Rat) : Binary64 :=
  if v ≤ 0 then zero negative
  else
    let e := max minExponent (binaryMagnitude v - (precision - 1))
    let m := (roundHalfEven (v / (2 : Rat) ^ e)).toNat
    let (m, e) := if m = Nat.pow 2 precision then (Nat.pow 2 (precision - 1), e + 1) else (m, e)
    if maxExponent < e then .infinite negative else .finite negative m e

/-- Decimal magnitudes from here on lie beyond the greatest number. -/
def maxMagnitude : Int := 310

/-- Decimal magnitudes up to here lie nearer to zero than to the least number. -/
def minMagnitude : Int := -330

/-- The number nearest to `± digits · 10 ^ exponent`.  The power is formed only where
it can matter. -/
def ofDecimal (negative : Bool) (digits : Nat) (exponent : Int) : Binary64 :=
  let size := ((Nat.toDigits 10 digits).length : Int) + exponent
  if digits = 0 ∨ size ≤ minMagnitude then zero negative
  else if maxMagnitude ≤ size then .infinite negative
  else ofRat negative ((digits : Rat) * (10 : Rat) ^ exponent)

/-- The value of a finite number. -/
def toRat? : Binary64 → Option Rat
  | .finite negative m e =>
    let magnitude := (m : Rat) * (2 : Rat) ^ e
    some (if negative then -magnitude else magnitude)
  | .infinite _ | .notANumber => none

end Binary64

end FormalMachines.Number
