import SqlFlow.Number.Binary64
import SqlFlow.Toml.Item

/-!
# Numbers, booleans, dates and times in TOML

The values of a TOML document that are written as one word.

* `Scalar.ofWord?`: the value that a word is, and `none` for a word that is no value.
* `digits?`: digits with single underscores between them.
* `Date`, `Time`: the calendar and the clock that dates and times have to keep to.
-/

namespace SqlFlow.Toml.Scalar

open Number (Numeral digitsValue splitSign)

/-! ## Numbers -/

/-- The digits of a number without the underscores that may stand between two of them. -/
def digits? (isDigit : Char → Bool) : List Char → Option (List Char)
  | [] => none
  | [c] => if isDigit c then some [c] else none
  | c :: '_' :: cs => if isDigit c then (digits? isDigit cs).map (c :: ·) else none
  | c :: cs => if isDigit c then (digits? isDigit cs).map (c :: ·) else none

/-- The least integer that is out of range, and the greatest one is its predecessor. Integers have
64 bits, one of them for the sign. -/
def integerLimit : Nat := 0x8000000000000000

/-- Decimal digits that do not begin with a needless zero. -/
def decimal? (cs : List Char) : Option (List Char) :=
  match digits? Char.isDigit cs with
  | some ('0' :: _ :: _) => none
  | other => other

/-- An integer in range. -/
def integer? (negative : Bool) (magnitude : Nat) : Option Item :=
  if negative then if magnitude ≤ integerLimit then some (.integer (-magnitude)) else none
  else if magnitude < integerLimit then some (.integer magnitude) else none

/-- The value of a digit in any base up to sixteen. -/
def digitValue (c : Char) : Nat :=
  if c.isDigit then c.toNat - '0'.toNat else (c.toLower.toNat - 'a'.toNat) + 10

/-- An integer in a base other than ten, behind what names the base. Such an integer has no sign. -/
def inBase? (base : Nat) (isDigit : Char → Bool) (cs : List Char) : Option Item :=
  (digits? isDigit cs).bind fun digits =>
    integer? false (digits.foldl (fun n c => base * n + digitValue c) 0)

def isHexDigit (c : Char) : Bool :=
  c.isDigit || ('a' ≤ c && c ≤ 'f') || ('A' ≤ c && c ≤ 'F')

/-- An integer in any notation. -/
def integerOf? : List Char → Option Item
  | '0' :: 'x' :: cs => inBase? 16 isHexDigit cs
  | '0' :: 'o' :: cs => inBase? 8 (fun c => '0' ≤ c && c ≤ '7') cs
  | '0' :: 'b' :: cs => inBase? 2 (fun c => c == '0' || c == '1') cs
  | cs =>
    (decimal? (splitSign cs).2).bind fun digits =>
      integer? (splitSign cs).1 (digitsValue digits)

/-- The exponent of a number, behind its letter; the sign is kept and the digits are checked. -/
def exponent? (cs : List Char) : Option (List Char) :=
  (digits? Char.isDigit (splitSign cs).2).map fun digits =>
    if (splitSign cs).1 then '-' :: digits else digits

def isExponentLetter (c : Char) : Bool := c == 'e' || c == 'E'

/-- A number with a fraction, an exponent or both, without its underscores. -/
def floatText? (unsigned : List Char) : Option (List Char) := do
  let mantissa := unsigned.takeWhile (!isExponentLetter ·)
  let power := unsigned.dropWhile (!isExponentLetter ·)
  let whole ← decimal? (mantissa.takeWhile (· != '.'))
  match mantissa.dropWhile (· != '.'), power with
  | [], [] => none
  | [], _ :: power => return whole ++ 'e' :: (← exponent? power)
  | _ :: fraction, [] => return whole ++ '.' :: (← digits? Char.isDigit fraction)
  | _ :: fraction, _ :: power =>
    return whole ++ '.' :: (← digits? Char.isDigit fraction) ++ 'e' :: (← exponent? power)

/-- The number with a sign put before it again. -/
def signed (negative : Bool) (text : List Char) : List Char :=
  if negative then '-' :: text else text

/-- A number that is not written as an integer. A finite number may not be beyond the range of
doubles on the positive side. -/
def floatOf? (cs : List Char) : Option Item :=
  let negative := (splitSign cs).1
  let unsigned := (splitSign cs).2
  if unsigned = ['i', 'n', 'f'] then some (.float (.infinite negative))
  else if unsigned = ['n', 'a', 'n'] then some (.float .notANumber)
  else do
    let n ← Numeral.ofChars? (signed negative (← floatText? unsigned))
    if !negative && n.overflows then none else some (.float n)

/-! ## Dates and times -/

/-- The value of a field of exactly `width` digits, and what follows it. -/
def fixed? (width : Nat) (cs : List Char) : Option (Nat × List Char) :=
  let digits := cs.take width
  if digits.length = width ∧ digits.all Char.isDigit then some (digitsValue digits, cs.drop width)
  else none

/-- The text behind a character that has to be there. -/
def behind? (c : Char) : List Char → Option (List Char)
  | [] => none
  | d :: cs => if d = c then some cs else none

def isLeapYear (year : Nat) : Bool := year % 4 == 0 && (year % 100 != 0 || year % 400 == 0)

def daysOfMonth (year month : Nat) : Nat :=
  if month = 2 then if isLeapYear year then 29 else 28
  else if month = 4 ∨ month = 6 ∨ month = 9 ∨ month = 11 then 30
  else 31

/-- The text behind a day of the calendar. -/
def afterDate? (cs : List Char) : Option (List Char) := do
  let (year, cs) ← fixed? 4 cs
  let (month, cs) ← fixed? 2 (← behind? '-' cs)
  let (day, cs) ← fixed? 2 (← behind? '-' cs)
  if 1 ≤ month ∧ month ≤ 12 ∧ 1 ≤ day ∧ day ≤ daysOfMonth year month then some cs else none

/-- The text behind an hour and a minute. -/
def afterMinute? (cs : List Char) : Option (List Char) := do
  let (hour, cs) ← fixed? 2 cs
  let (minute, cs) ← fixed? 2 (← behind? ':' cs)
  if hour ≤ 23 ∧ minute ≤ 59 then some cs else none

/-- The text behind a time of the day, in which a second may be a leap second and have any number of
decimal places. -/
def afterTime? (cs : List Char) : Option (List Char) := do
  let (second, cs) ← fixed? 2 (← behind? ':' (← afterMinute? cs))
  if second ≤ 60 then
    match cs with
    | '.' :: places =>
      if (places.takeWhile Char.isDigit).isEmpty then none
      else some (places.dropWhile Char.isDigit)
    | _ => some cs
  else none

/-- Whether a text is a time zone, or nothing. -/
def isOffset : List Char → Bool
  | [] => true
  | ['Z'] | ['z'] => true
  | c :: cs => (c == '+' || c == '-') && afterMinute? cs == some []

/-- Whether a text is a date, a time, or both. Only with both there may be a time zone. -/
def isDateTime (cs : List Char) : Bool :=
  match afterDate? cs with
  | none => afterTime? cs == some []
  | some [] => true
  | some (c :: time) =>
    (c == 'T' || c == 't' || c == ' ') && (afterTime? time).any isOffset

/-! ## Words -/

/-- The value of a word. -/
def ofWord? (cs : List Char) : Option Item :=
  if cs = ['t', 'r', 'u', 'e'] then some (.boolean true)
  else if cs = ['f', 'a', 'l', 's', 'e'] then some (.boolean false)
  else if isDateTime cs then some (.dateTime (String.ofList cs))
  else (integerOf? cs).orElse fun _ => floatOf? cs

/-- Whether a character may be part of a word. -/
def isWordChar (c : Char) : Bool :=
  c.isAlphanum || c == '+' || c == '-' || c == '_' || c == '.' || c == ':'

/-- A word off the front of a text, and what follows it. Between a date and a time there may be one
space. -/
def word (cs : List Char) : List Char × List Char :=
  let first := cs.takeWhile isWordChar
  match cs.dropWhile isWordChar with
  | ' ' :: c :: rest =>
    if isWordChar c && afterDate? first == some [] then
      (first ++ ' ' :: (c :: rest).takeWhile isWordChar, (c :: rest).dropWhile isWordChar)
    else (first, ' ' :: c :: rest)
  | rest => (first, rest)

end SqlFlow.Toml.Scalar
