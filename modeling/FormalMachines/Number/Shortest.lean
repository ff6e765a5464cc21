import FormalMachines.Number.Binary64

/-!
# FormalMachines.Number.Shortest

The shortest decimal text of a binary floating-point number:

1. of all decimals that round to the number, one with the fewest digits; of those, the
   one nearest to it, and of two equally near the one with the even last digit;
2. positional notation for decimal magnitudes from −4 to 15, with `.0` after an
   integer;
3. else one digit, a point and the others if there are any, then `e`, a sign and at
   least two digits of exponent;
4. `nan`, `inf`, and a minus sign before anything negative, zero included.

The decimals that round to a number form an interval around it, whose ends belong to it
exactly if the mantissa is even.  If a decimal of a grid `10 ^ g · ℤ` lies in that
interval, so does one of the number's two neighbours on the grid: the search looks at
the neighbours only.
-/

namespace FormalMachines.Number

/-- The exponent `e` with `10 ^ e ≤ v < 10 ^ (e + 1)`, for a positive `v`. -/
def decimalMagnitude (v : Rat) : Int :=
  if 1 ≤ v then (Nat.toDigits 10 v.floor.toNat).length - 1
  else -(Nat.toDigits 10 ((1 / v).ceil.toNat - 1)).length

/-- The positive decimal `digits · 10 ^ exponent`. -/
structure Decimal where
  digits : Nat
  exponent : Int

namespace Decimal

def toRat (d : Decimal) : Rat := (d.digits : Rat) * (10 : Rat) ^ d.exponent

/-- The digits without trailing zeros. -/
def significant (d : Decimal) : List Char :=
  ((Nat.toDigits 10 d.digits).reverse.dropWhile (· = '0')).reverse

/-- The exponent of the first digit. -/
def magnitude (d : Decimal) : Int := (Nat.toDigits 10 d.digits).length - 1 + d.exponent

end Decimal

/-- The decimals that round to a number: those between two ends. -/
structure RoundingInterval where
  value : Rat
  lower : Rat
  upper : Rat
  closed : Bool

namespace RoundingInterval

/-- The interval of `mantissa · 2 ^ exponent`.  Below a power of two the spacing is
halved, but for the least exponent. -/
def around (mantissa : Nat) (exponent : Int) : RoundingInterval :=
  let unit := (2 : Rat) ^ exponent
  let value := (mantissa : Rat) * unit
  let gapBelow :=
    if mantissa = Nat.pow 2 (Binary64.precision - 1) ∧ Binary64.minExponent < exponent then unit / 2
    else unit
  ⟨value, value - gapBelow / 2, value + unit / 2, mantissa % 2 = 0⟩

def contains (i : RoundingInterval) (v : Rat) : Bool :=
  if i.closed then i.lower ≤ v && v ≤ i.upper else i.lower < v && v < i.upper

/-- The nearer of two decimals around the value; of two equally near, the even one. -/
def nearer (i : RoundingInterval) (low high : Decimal) : Decimal :=
  let below := i.value - low.toRat
  let above := high.toRat - i.value
  if below < above then low
  else if above < below then high
  else if low.digits % 2 = 0 then low else high

/-- The decimal with this many digits that rounds to the number and lies nearest. -/
def onGrid (i : RoundingInterval) (count : Nat) : Option Decimal :=
  let g := decimalMagnitude i.value - (count - 1)
  let below := (i.value / (10 : Rat) ^ g).floor.toNat
  let low : Decimal := ⟨below, g⟩
  let high : Decimal := ⟨below + 1, g⟩
  match i.contains low.toRat, i.contains high.toRat with
  | true, true => some (i.nearer low high)
  | true, false => some low
  | false, true => some high
  | false, false => none

/-- Seventeen digits always suffice to tell two numbers apart. -/
def maxDigits : Nat := 17

/-- The shortest decimal of the interval. -/
def shortest (i : RoundingInterval) : Decimal :=
  ((List.range maxDigits).findSome? fun k => i.onGrid (k + 1)).getD ⟨0, 0⟩

end RoundingInterval

/-- The magnitudes written in positional notation lie between these two. -/
def positionalRange : Int × Int := (-4, 15)

/-- Positional notation of the digits `ds`, the first of which counts `10 ^ magnitude`. -/
def positional (ds : List Char) (magnitude : Int) : List Char :=
  if magnitude < 0 then
    '0' :: '.' :: List.replicate (-magnitude - 1).toNat '0' ++ ds
  else
    let whole := magnitude.toNat + 1
    let padded := ds ++ List.replicate (whole - ds.length) '0'
    let fraction := padded.drop whole
    padded.take whole ++ '.' :: (if fraction = [] then ['0'] else fraction)

/-- Scientific notation of the same. -/
def scientific (ds : List Char) (magnitude : Int) : List Char :=
  let exponent := Nat.toDigits 10 magnitude.natAbs
  ds.take 1 ++ (if ds.length ≤ 1 then [] else '.' :: ds.drop 1)
    ++ 'e' :: (if magnitude < 0 then '-' else '+')
    :: List.replicate (2 - exponent.length) '0' ++ exponent

/-- The text of a positive decimal. -/
def Decimal.text (d : Decimal) : List Char :=
  let magnitude := d.magnitude
  if positionalRange.1 ≤ magnitude ∧ magnitude ≤ positionalRange.2 then
    positional d.significant magnitude
  else scientific d.significant magnitude

namespace Binary64

/-- The text of a number without its sign. -/
def magnitudeText : Binary64 → List Char
  | .notANumber => ['n', 'a', 'n']
  | .infinite _ => ['i', 'n', 'f']
  | .finite _ 0 _ => ['0', '.', '0']
  | .finite _ m e => (RoundingInterval.around m e).shortest.text

def isNegative : Binary64 → Bool
  | .notANumber => false
  | .infinite negative | .finite negative _ _ => negative

/-- The shortest text that reads back as the number. -/
def text (x : Binary64) : String :=
  String.ofList (if x.isNegative then '-' :: x.magnitudeText else x.magnitudeText)

end Binary64

end FormalMachines.Number
