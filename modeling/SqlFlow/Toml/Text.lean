/-!
# Text in TOML

The strings of a TOML document, and what may stand between its parts.

* `blanks`, `newline?`, `comment`: spaces and tabs, the two ways to end a line, and comments.
* `string?`: a string of any of the four kinds: between double quotes, where a backslash escapes;
  between single quotes, where nothing does; and both between three quotes, over several lines.
* `quote`: a string as it is written between double quotes.

All four kinds are read by `collect`, which goes from character to character in a mode that says what
the last ones mean for the next.
-/

namespace SqlFlow.Toml

/-- Takes something off the front of a text. -/
abbrev Reader (α : Type) := List Char → Option (α × List Char)

/-! ## Between the parts -/

def isBlank (c : Char) : Bool := c == ' ' || c == '\t'

/-- The text behind spaces and tabs. -/
def blanks (cs : List Char) : List Char := cs.dropWhile isBlank

/-- The text behind the end of a line. A carriage return ends a line only before a line feed. -/
def newline? : List Char → Option (List Char)
  | '\n' :: cs => some cs
  | '\r' :: '\n' :: cs => some cs
  | _ => none

/-- Whether a character may stand in a comment: all but the control characters. -/
def isVisible (c : Char) : Bool := (0x20 ≤ c.toNat && c.toNat != 0x7F) || c == '\t'

/-- The text behind a comment, if there is one; the end of the line is left. -/
def comment : List Char → List Char
  | '#' :: cs => cs.dropWhile isVisible
  | cs => cs

/-- The text behind the end of a line and whatever may come before it, where the end of the text
also ends a line. -/
def lineEnd? (cs : List Char) : Option (List Char) :=
  match comment (blanks cs) with
  | [] => some []
  | c :: cs => newline? (c :: cs)

/-! ## Collecting the characters of a string -/

/-- What a character of a string comes to. -/
inductive Collected (μ : Type) where
  /-- It adds characters to the string. -/
  | more (added : List Char) (mode : μ)
  /-- It ends the string, adding characters, and the rest follows. -/
  | done (added rest : List Char)
  | refused

/-- Reads a string to its end. `next` is given the mode, the next character and what follows. -/
def collect {μ : Type} (next : μ → Char → List Char → Collected μ) :
    (mode : μ) → Reader (List Char)
  | _, [] => none
  | mode, c :: cs =>
    match next mode c cs with
    | .more added mode => (collect next mode cs).map fun (text, rest) => (added ++ text, rest)
    | .done added rest => some (added, rest)
    | .refused => none

/-! ## Strings on one line -/

/-- What the last characters of a string between double quotes mean for the next. -/
inductive Escape where
  | none
  /-- A backslash. -/
  | begun
  /-- A code point of which `left + 1` digits are to come. -/
  | code (left value : Nat)
  /-- A backslash that ends the line, perhaps behind blanks. -/
  | lineEnd
  /-- The blanks and newlines that such a backslash takes away. -/
  | skip
  /-- A carriage return, which has to be followed by a line feed and then goes on in `mode`. -/
  | carriage (adds : Bool)

/-- The value of a hexadecimal digit. -/
def hexDigit? (c : Char) : Option Nat :=
  if c.isDigit then some (c.toNat - '0'.toNat)
  else if 'a' ≤ c ∧ c ≤ 'f' then some (c.toNat - 'a'.toNat + 10)
  else if 'A' ≤ c ∧ c ≤ 'F' then some (c.toNat - 'A'.toNat + 10)
  else none

/-- The character that a letter behind a backslash stands for. -/
def escaped? : Char → Option Char
  | 'b' => some '\x08'
  | 't' => some '\t'
  | 'n' => some '\n'
  | 'f' => some '\x0c'
  | 'r' => some '\r'
  | '"' => some '"'
  | '\\' => some '\\'
  | _ => none

/-- What a character behind a backslash comes to. -/
def afterBackslash (c : Char) : Collected Escape :=
  match c, escaped? c with
  | 'u', _ => .more [] (.code 3 0)
  | 'U', _ => .more [] (.code 7 0)
  | _, some c => .more [c] .none
  | _, none => .refused

/-- What a digit of a code point comes to. The last one completes a character, if the code point
is one. -/
def codeDigit (left value : Nat) (c : Char) : Collected Escape :=
  match hexDigit? c, left with
  | none, _ => .refused
  | some d, left + 1 => .more [] (.code left (16 * value + d))
  | some d, 0 =>
    let code := 16 * value + d
    if code.isValidChar then .more [Char.ofNat code] .none else .refused

/-- A string between double quotes on one line. -/
def basicNext : Escape → Char → List Char → Collected Escape
  | .begun, c, _ => afterBackslash c
  | .code left value, c, _ => codeDigit left value c
  | _, c, cs =>
    if c == '"' then .done [] cs
    else if c == '\\' then .more [] .begun
    else if isVisible c then .more [c] .none
    else .refused

/-- A string between single quotes on one line. -/
def literalNext (_ : Unit) (c : Char) (cs : List Char) : Collected Unit :=
  if c == '\'' then .done [] cs else if isVisible c then .more [c] () else .refused

/-! ## Strings over several lines -/

/-- What a quote comes to inside three quotes. Three quotes in a row end the string, and up to two
before them belong to it. -/
def quoteInside {μ : Type} (quote : Char) (mode : μ) (cs : List Char) : Collected μ :=
  let more := (cs.takeWhile (· == quote)).length
  if more < 2 then .more [quote] mode
  else if more ≤ 4 then .done (List.replicate (more - 2) quote) (cs.drop more)
  else .refused

/-- A character of a string over several lines that is not part of an escape. -/
def multilineNext (quote : Char) (escapes : Bool) (c : Char) (cs : List Char) : Collected Escape :=
  if c == quote then quoteInside quote .none cs
  else if c == '\\' && escapes then .more [] .begun
  else if c == '\r' then .more [] (.carriage true)
  else if isVisible c || c == '\n' then .more [c] .none
  else .refused

/-- A string between three double quotes. -/
def multilineBasicNext : Escape → Char → List Char → Collected Escape
  | .none, c, cs => multilineNext '"' true c cs
  | .begun, c, _ =>
    if isBlank c then .more [] .lineEnd
    else if c == '\n' then .more [] .skip
    else if c == '\r' then .more [] (.carriage false)
    else afterBackslash c
  | .code left value, c, _ => codeDigit left value c
  | .lineEnd, c, _ =>
    if isBlank c then .more [] .lineEnd
    else if c == '\n' then .more [] .skip
    else if c == '\r' then .more [] (.carriage false)
    else .refused
  | .skip, c, cs =>
    if isBlank c || c == '\n' then .more [] .skip
    else if c == '\r' then .more [] (.carriage false)
    else multilineNext '"' true c cs
  | .carriage adds, c, _ =>
    if c == '\n' then (if adds then .more [c] .none else .more [] .skip) else .refused

/-- A string between three single quotes. -/
def multilineLiteralNext : Escape → Char → List Char → Collected Escape
  | .carriage _, c, _ => if c == '\n' then .more [c] .none else .refused
  | _, c, cs => multilineNext '\'' false c cs

/-- The text behind a newline that stands right behind three quotes and is not part of the
string. -/
def dropNewline (cs : List Char) : List Char := (newline? cs).getD cs

/-- A string on one line. -/
def simpleString? : Reader String
  | '"' :: cs => (collect basicNext .none cs).map fun (text, rest) => (String.ofList text, rest)
  | '\'' :: cs => (collect literalNext () cs).map fun (text, rest) => (String.ofList text, rest)
  | _ => none

/-- A string of any kind. -/
def string? : Reader String
  | '"' :: '"' :: '"' :: cs =>
    (collect multilineBasicNext .none (dropNewline cs)).map
      fun (text, rest) => (String.ofList text, rest)
  | '\'' :: '\'' :: '\'' :: cs =>
    (collect multilineLiteralNext .none (dropNewline cs)).map
      fun (text, rest) => (String.ofList text, rest)
  | cs => simpleString? cs

/-! ## Writing -/

/-- The letter that stands for a character behind a backslash, if there is one. -/
def escapeLetter? : Char → Option Char
  | '\x08' => some 'b'
  | '\t' => some 't'
  | '\n' => some 'n'
  | '\x0c' => some 'f'
  | '\r' => some 'r'
  | '"' => some '"'
  | '\\' => some '\\'
  | _ => none

/-- A hexadecimal number with at least four digits, of which the letters are capital. -/
def fourDigits (n : Nat) : List Char :=
  let digits := (Nat.toDigits 16 n).map Char.toUpper
  List.replicate (4 - digits.length) '0' ++ digits

/-- A character as it is written between double quotes: by its letter if it has one, as itself if it
is visible, and by its code point otherwise. -/
def quoteChar (c : Char) : List Char :=
  match escapeLetter? c with
  | some letter => ['\\', letter]
  | none => if isVisible c then [c] else '\\' :: 'u' :: fourDigits c.toNat

/-- A string as it is written between double quotes. -/
def quote (s : String) : String :=
  String.ofList ('"' :: s.toList.flatMap quoteChar ++ ['"'])

end SqlFlow.Toml
