import SqlFlow.Number.Decimal
import SqlFlow.Text.Blank

/-!
# Literal truth values

A condition that is written as a literal needs no database: a word for true or false, or a number.

* `Literal.truth?`: the truth value of a literal, and `none` for a text that is no literal.

Words are compared without regard to the case of ASCII letters. A number is true unless the nearest
double to it is zero, so NaN and the infinities are true, and so is every number but zero itself
down to half of the least positive double.
-/

namespace SqlFlow.Literal

/-- The truth value that a word names. The empty word is false. -/
def ofWord? (word : String) : Option Bool :=
  if word ∈ ["true", "yes", "on"] then some true
  else if word ∈ ["false", "no", "off", ""] then some false
  else none

/-- The truth value of a literal, blanks around it aside. -/
def truth? (text : String) : Option Bool :=
  let core := Text.trim text.toList
  match ofWord? (String.ofList (core.map Char.toLower)) with
  | some b => some b
  | none => (Number.Numeral.ofChars? core).map fun n => !n.vanishes

end SqlFlow.Literal
