/-! Doubles as exact numbers, and their decimals.  `reading` takes a double apart into sign,
mantissa and power of two, and `nearest` goes the other way: it rounds any quotient of natural
numbers to the nearest double, a tie to the even mantissa.  Everything is computed with `Nat` and
`Int`, powers with `Nat.pow`. -/

namespace CityTour.Double

/-- What a double stands for. -/
inductive Reading
  | undefined
  | infinite (negative : Bool)
  /-- The number `± mantissa * 2 ^ exponent`. -/
  | finite (negative : Bool) (mantissa : Nat) (exponent : Int)
  deriving DecidableEq, Repr

/-- The fields of a double: one bit of sign, eleven of exponent, fifty-two of mantissa. -/
def readingOfBits (bits : Nat) : Reading :=
  let negative := bits / Nat.pow 2 63 % 2 == 1
  let biased : Nat := bits / Nat.pow 2 52 % Nat.pow 2 11
  let fraction := bits % Nat.pow 2 52
  if biased = 2047 then
    if fraction = 0 then .infinite negative else .undefined
  else if biased = 0 then .finite negative fraction (-1074)
  else .finite negative (Nat.pow 2 52 + fraction) (biased - 1075)

/-- The number that a double stands for. -/
def reading (x : Float) : Reading := readingOfBits x.toBits.toNat

/-- The quotient rounded to the nearest natural number, a tie to the even one. -/
def roundQuotient (num den : Nat) : Nat :=
  let q := num / den
  let r := num % den
  if 2 * r < den ∨ (2 * r = den ∧ q % 2 = 0) then q else q + 1

/-- `num / den` in units of `2 ^ e`, as a quotient of natural numbers. -/
def inUnits (num den : Nat) (e : Int) : Nat × Nat :=
  if e < 0 then (num * Nat.pow 2 (-e).toNat, den) else (num, den * Nat.pow 2 e.toNat)

/-- The exponent of the last mantissa bit of a double near `num / den`: fifty-three bits are kept,
fewer below the least normal double. -/
def unitExponent (num den : Nat) : Int :=
  let guess : Int := num.log2 - den.log2 - 53
  let scaled := inUnits num den guess
  max (-1074) (if scaled.1 / scaled.2 < Nat.pow 2 53 then guess else guess + 1)

/-- The bits of the double nearest to `num / den`.  A mantissa that rounds up to `2 ^ 53` carries
into the exponent field, and past the greatest double that gives infinity. -/
def nearestBits (num den : Nat) : Nat :=
  let e := unitExponent num den
  let scaled := inUnits num den e
  min (2047 * Nat.pow 2 52)
    ((e + 1074).toNat * Nat.pow 2 52 + roundQuotient scaled.1 scaled.2)

/-- The double nearest to `± num / den`. -/
def nearest (negative : Bool) (num den : Nat) : Float :=
  let magnitude := if num = 0 then 0 else nearestBits num den
  Float.ofBits (UInt64.ofNat (if negative then Nat.pow 2 63 + magnitude else magnitude))

/-- The double nearest to an integer. -/
def ofInt (i : Int) : Float := nearest (decide (i < 0)) i.natAbs 1

/-- The double nearest to `num / den`, for a positive denominator. -/
def ofQuotient (num : Int) (den : Nat) : Float := nearest (decide (num < 0)) num.natAbs den

/-- An infinite double. -/
def infinity (negative : Bool) : Float :=
  Float.ofBits (UInt64.ofNat ((if negative then Nat.pow 2 63 else 0) + 2047 * Nat.pow 2 52))

/-- A double that stands for no number. -/
def undefined : Float := Float.ofBits (UInt64.ofNat (2047 * Nat.pow 2 52 + Nat.pow 2 51))

/-- A finite number cut to its integer part, toward zero. -/
def truncation (negative : Bool) (mantissa : Nat) (exponent : Int) : Int :=
  let whole := if exponent < 0 then mantissa / Nat.pow 2 (-exponent).toNat
    else mantissa * Nat.pow 2 exponent.toNat
  if negative then -(whole : Int) else whole

/-- The sixteen hexadecimal digits of the bits. -/
def hexDigits (x : Float) : String :=
  let digits := Nat.toDigits 16 x.toBits.toNat
  String.ofList (List.replicate (16 - digits.length) '0' ++ digits)

end CityTour.Double

/-! ### Decimal digits of doubles

A decimal is a pair: a natural number of digits and a power of ten.  `toDouble` rounds a decimal to
the nearest double.  `shortest` gives the fewest digits that `toDouble` takes back to the same
double, and of two such decimals the nearer one.  `significant` and `fixed` round the exact value to
a count of digits or of decimal places. -/

namespace CityTour

/-- The number `digits * 10 ^ exponent`. -/
structure Decimal where
  digits : Nat
  exponent : Int
  deriving DecidableEq, Repr

namespace Decimal

open Double

/-- `10 ^ e` times `num / den`, as a quotient of natural numbers. -/
def scale (num den : Nat) (e : Int) : Nat × Nat :=
  if e < 0 then (num, den * Nat.pow 10 (-e).toNat) else (num * Nat.pow 10 e.toNat, den)

/-- The power of ten just above the digits: the decimal is below `10 ^ order`. -/
def order (d : Decimal) : Int := (Nat.toDigits 10 d.digits).length + d.exponent

/-- The double nearest to a decimal.  An order past the range of doubles is decided before any
power is computed. -/
def toDouble (negative : Bool) (d : Decimal) : Float :=
  if d.digits = 0 ∨ d.order < -330 then nearest negative 0 1
  else if 330 < d.order then infinity negative
  else
    let q := scale d.digits 1 d.exponent
    nearest negative q.1 q.2

/-- Whether `num / den` is below `10 ^ p`. -/
def belowPower (num den : Nat) (p : Int) : Bool :=
  let q := scale num den (-p)
  q.1 < q.2

/-- The least `p` with `num / den < 10 ^ p`, found from the binary logarithm. -/
def orderOf (num den : Nat) : Int :=
  let low := (((num.log2 : Int) - den.log2 - 1) * 30103).fdiv 100000
  if belowPower num den low then low
  else if belowPower num den (low + 1) then low + 1
  else if belowPower num den (low + 2) then low + 2
  else low + 3

/-- A finite magnitude `mantissa * 2 ^ exponent` as a quotient. -/
def magnitude (mantissa : Nat) (exponent : Int) : Nat × Nat :=
  if exponent < 0 then (mantissa, Nat.pow 2 (-exponent).toNat)
  else (mantissa * Nat.pow 2 exponent.toNat, 1)

/-- All digits of `mantissa * 2 ^ exponent`. -/
def exact (mantissa : Nat) (exponent : Int) : Decimal :=
  if exponent < 0 then ⟨mantissa * Nat.pow 5 (-exponent).toNat, exponent⟩
  else ⟨mantissa * Nat.pow 2 exponent.toNat, 0⟩

/-- The decimal with `count` digits that stands for the magnitude, if there is one: of the two
neighbours on that grid the one that reads back, and if both do the nearer. -/
def ofCount? (target : Float) (num den : Nat) (p : Int) (count : Nat) : Option Decimal :=
  let e := p - count
  let q := scale num den (-e)
  let low : Decimal := ⟨q.1 / q.2, e⟩
  let high : Decimal := ⟨q.1 / q.2 + 1, e⟩
  let nearer := if roundQuotient q.1 q.2 = low.digits then low else high
  let farther := if roundQuotient q.1 q.2 = low.digits then high else low
  if (toDouble false nearer).toBits = target.toBits then some nearer
  else if (toDouble false farther).toBits = target.toBits then some farther
  else none

/-- The decimal of fewest digits that reads back as the positive double `mantissa * 2 ^ exponent`.
Seventeen digits always suffice; all digits stand behind them. -/
def shortest (mantissa : Nat) (exponent : Int) : Decimal :=
  let v := magnitude mantissa exponent
  let p := orderOf v.1 v.2
  let target := nearest false v.1 v.2
  ((List.range 17).findSome? fun i => ofCount? target v.1 v.2 p (i + 1)).getD
    (exact mantissa exponent)

/-- A positive magnitude rounded to `count` significant digits, a tie to the even digit. -/
def significant (count mantissa : Nat) (exponent : Int) : Decimal :=
  let v := magnitude mantissa exponent
  let p := orderOf v.1 v.2
  let q := scale v.1 v.2 (count - p)
  ⟨roundQuotient q.1 q.2, p - count⟩

/-- A magnitude rounded to `places` decimal places, a tie to the even digit. -/
def fixed (places mantissa : Nat) (exponent : Int) : Decimal :=
  let v := magnitude mantissa exponent
  let q := scale v.1 v.2 places
  ⟨roundQuotient q.1 q.2, -places⟩

end Decimal

end CityTour
