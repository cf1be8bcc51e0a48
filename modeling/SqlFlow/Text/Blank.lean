/-!
# Blank characters

The white space of scripts: the characters with the Unicode property `White_Space`. It is a
larger set than `Char.isWhitespace`, which stops at ASCII, and a smaller one than "invisible
characters": U+200B (zero width space) and U+FEFF (byte order mark) are not in it.

* `isBlank`: membership in the property.
* `trim`: a text without the blanks at its two ends; `trimLeft` and `trimRight` are its halves, and
  `trimmed` is the same on strings.
* `allBlank`: nothing but blanks, the empty text included.
-/

namespace SqlFlow.Text

/-- The code points of the property `White_Space`, as closed ranges in increasing order. -/
def blankRanges : List (Nat × Nat) :=
  [(0x09, 0x0D), (0x20, 0x20), (0x85, 0x85), (0xA0, 0xA0), (0x1680, 0x1680), (0x2000, 0x200A),
   (0x2028, 0x2029), (0x202F, 0x202F), (0x205F, 0x205F), (0x3000, 0x3000)]

/-- White space is what the table of ranges lists. -/
def isBlank (c : Char) : Bool :=
  blankRanges.any fun (first, last) => first ≤ c.toNat && c.toNat ≤ last

/-- A text of blanks only; trimming leaves nothing of it. -/
def allBlank (cs : List Char) : Bool := cs.all isBlank

/-- The text from its first character that is not blank. -/
def trimLeft (cs : List Char) : List Char := cs.dropWhile isBlank

/-- The text without the longest suffix whose characters all satisfy `p`. -/
def dropRight (p : Char → Bool) (cs : List Char) : List Char :=
  (cs.reverse.dropWhile p).reverse

/-- The text up to its last character that is not blank. -/
def trimRight (cs : List Char) : List Char := dropRight isBlank cs

/-- The text without the blanks at either end. -/
def trim (cs : List Char) : List Char := trimRight (trimLeft cs)

/-- A string without the blanks at either end. -/
def trimmed (s : String) : String := String.ofList (trim s.toList)

end SqlFlow.Text
