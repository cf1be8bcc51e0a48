import SqlFlow.Number.Decimal

/-!
# The nearest double

Rounds an exact quotient, and so a decimal numeral, to the nearest number of the format binary64.
All the arithmetic is on natural numbers; a `Float` is only built from its finished bits.

* `roundHalfEven`: a quotient rounded to the nearest integer, a half to the even one.
* `nearestBits`: the bits of the nearest double to a positive quotient.
* `Numeral.toFloat`: the nearest double to a numeral.
-/

namespace SqlFlow.Number

/-- `num / den` rounded to the nearest integer; a half goes to the even neighbour. -/
def roundHalfEven (num den : Nat) : Nat :=
  let q := num / den
  let r := num % den
  if 2 * r < den || (2 * r == den && q % 2 == 0) then q else q + 1

/-- The quotient `num · 2 ^ (-e) / den` as numerator and denominator. -/
def scaleDown (num den : Nat) (e : Int) : Nat × Nat :=
  (num <<< (-e).toNat, den <<< e.toNat)

/-- The greatest `e` with `2 ^ e ≤ num / den`, for positive `num` and `den`. -/
def binaryExponent (num den : Nat) : Int :=
  let e : Int := num.log2 - den.log2
  let scaled := scaleDown num den e
  if scaled.2 ≤ scaled.1 then e else e - 1

/-- The bits of positive infinity, which are those of the first number beyond the finite range. -/
def infinityBits : Nat := 0x7FF0000000000000

/-- The bits of the nearest double to `num / den`, for positive `num` and `den`.

A double below the overflow limit is `m · 2 ^ q` with `m < 2 ^ 53` and `q ≥ -1074`, where `q` is as
small as that allows; its bits are then `(q + 1074) · 2 ^ 52 + m`, also when `m` has been rounded
up to `2 ^ 53`, and also for the subnormal numbers. -/
def nearestBits (num den : Nat) : Nat :=
  let q := max (binaryExponent num den - 52) (-1074)
  let scaled := scaleDown num den q
  min infinityBits (((q + 1074).toNat <<< 52) + roundHalfEven scaled.1 scaled.2)

/-- The bits of the nearest double to the magnitude of a decimal. A coefficient of at least one
with an exponent above 309 is beyond the finite range, whatever the exponent, and a value that
vanishes is zero; the powers that are left to compute are as long as the numeral itself. -/
def Decimal.magnitudeBits (d : Decimal) : Nat :=
  if d.vanishes then 0
  else if 309 < d.exponent then infinityBits
  else nearestBits (d.coefficient * Nat.pow 10 d.exponent.toNat) (Nat.pow 10 (-d.exponent).toNat)

/-- The bit of a negative sign. -/
def signBit : Nat := 0x8000000000000000

/-- The bits of a double from its sign and its magnitude. -/
def signedBits (negative : Bool) (magnitude : Nat) : UInt64 :=
  UInt64.ofNat (if negative then signBit + magnitude else magnitude)

/-- The nearest double. Zero keeps the sign it is written with. -/
def Numeral.toFloat : Numeral → Float
  | .finite d => Float.ofBits (signedBits d.negative d.magnitudeBits)
  | .infinite negative => Float.ofBits (signedBits negative infinityBits)
  | .notANumber => 0.0 / 0.0

/-- Whether the nearest double is an infinity. -/
def Numeral.overflows : Numeral → Bool
  | .finite d => d.magnitudeBits == infinityBits
  | .infinite _ => true
  | .notANumber => false

end SqlFlow.Number
