/-!
# Decimal numerals

A number written in decimal, and its value as coefficient and power of ten, exact at any length.

* `Decimal.ofChars?`: an optional sign, digits with an optional point among or around them (at
  least one digit), and an optional exponent: `e` or `E`, an optional sign, digits. The whole text
  has to be the numeral.
* `Decimal.vanishes`: whether the value is so small that the nearest double is zero, decided on the
  digits; `vanishes_iff` is the inequality it decides.
* `Numeral.ofChars?`: a decimal numeral, or one of the words for an infinity or for no number.
-/

namespace SqlFlow.Number

/-- The value of a run of decimal digits, the most significant first. -/
def digitsValue (digits : List Char) : Nat :=
  digits.foldl (fun n c => 10 * n + (c.toNat - '0'.toNat)) 0

/-- An optional leading sign, and what follows it: `true` stands for a minus. -/
def splitSign : List Char → Bool × List Char
  | '-' :: cs => (true, cs)
  | '+' :: cs => (false, cs)
  | cs => (false, cs)

/-- The value `± coefficient · 10 ^ exponent`. The sign is kept apart because zero has two. -/
structure Decimal where
  negative : Bool
  coefficient : Nat
  exponent : Int
deriving DecidableEq, Repr

namespace Decimal

/-- The exponent part that ends a numeral, which may be missing. -/
def exponent? : List Char → Option Int
  | [] => some 0
  | c :: cs =>
    let digits := (splitSign cs).2
    if (c == 'e' || c == 'E') && !digits.isEmpty && digits.all Char.isDigit then
      some (if (splitSign cs).1 then -(digitsValue digits : Int) else digitsValue digits)
    else none

/-- The fraction digits after a point, and what follows them. Without a point there are none. -/
def splitFraction : List Char → List Char × List Char
  | '.' :: cs => (cs.takeWhile Char.isDigit, cs.dropWhile Char.isDigit)
  | cs => ([], cs)

/-- Reads a decimal numeral. The point is moved behind the last digit, which costs one power of ten
for each fraction digit. -/
def ofChars? (cs : List Char) : Option Decimal :=
  let unsigned := (splitSign cs).2
  let whole := unsigned.takeWhile Char.isDigit
  let afterWhole := splitFraction (unsigned.dropWhile Char.isDigit)
  let fraction := afterWhole.1
  if whole.isEmpty && fraction.isEmpty then none
  else (exponent? afterWhole.2).map fun e =>
    ⟨(splitSign cs).1, digitsValue (whole ++ fraction), e - fraction.length⟩

/-- The least positive double is `2 ^ (-1074)`, so half of it is `2 ^ (-halfLeastPower)`. -/
def halfLeastPower : Nat := 1075

/-- Whether the nearest double to the value is zero: it is when the value is at most half of the
least positive double, since a tie goes to the even neighbour. The test between needs no large
power: it holds when already `8` in place of `10` makes the value small enough. -/
def vanishes (d : Decimal) : Bool :=
  let k := (-d.exponent).toNat
  d.coefficient == 0 ||
    (d.coefficient.log2 + 1 + halfLeastPower ≤ 3 * k ||
      d.coefficient <<< halfLeastPower ≤ Nat.pow 10 k)

/-- The test that needs no large power is sound, as `2 ^ (3 * k)` is at most `10 ^ k`. -/
theorem shiftLeft_le_pow {n j k : Nat} (h : n.log2 + 1 + j ≤ 3 * k) : n <<< j ≤ Nat.pow 10 k :=
  calc n <<< j
      = n * Nat.pow 2 j := Nat.shiftLeft_eq _ _
    _ ≤ Nat.pow 2 (n.log2 + 1) * Nat.pow 2 j :=
        Nat.mul_le_mul_right _ (Nat.le_of_lt Nat.lt_log2_self)
    _ = Nat.pow 2 (n.log2 + 1 + j) := (Nat.pow_add _ _ _).symm
    _ ≤ Nat.pow 2 (3 * k) := Nat.pow_le_pow_right (by decide) h
    _ = Nat.pow 8 k := Nat.pow_mul _ _ _
    _ ≤ Nat.pow 10 k := Nat.pow_le_pow_left (by decide) _

/-- `vanishes` decides that `coefficient · 10 ^ exponent` is at most half the least double. -/
theorem vanishes_iff (d : Decimal) :
    d.vanishes = true ↔
      d.coefficient <<< halfLeastPower ≤ Nat.pow 10 (-d.exponent).toNat ∨ d.coefficient = 0 := by
  simp only [vanishes, Bool.or_eq_true, beq_iff_eq, decide_eq_true_eq]
  constructor
  · rintro (h | h | h)
    · exact .inr h
    · exact .inl (shiftLeft_le_pow h)
    · exact .inl h
  · rintro (h | h)
    · exact .inr (.inr h)
    · exact .inl h

end Decimal

/-- A number as text can name it. -/
inductive Numeral where
  | finite (value : Decimal)
  | infinite (negative : Bool)
  | notANumber
deriving DecidableEq, Repr

namespace Numeral

/-- Reads a numeral: decimal, or `inf`, `infinity` or `nan` in any case, with an optional sign. -/
def ofChars? (cs : List Char) : Option Numeral :=
  match Decimal.ofChars? cs with
  | some d => some (.finite d)
  | none =>
    let word := String.ofList ((splitSign cs).2.map Char.toLower)
    if word = "inf" ∨ word = "infinity" then some (.infinite (splitSign cs).1)
    else if word = "nan" then some .notANumber
    else none

/-- Whether the nearest double is a zero. -/
def vanishes : Numeral → Bool
  | .finite d => d.vanishes
  | .infinite _ => false
  | .notANumber => false

end Numeral

end SqlFlow.Number
