import SqlFlow.Toml.Codec
import SqlFlow.Toml.Scalar
import SqlFlow.Toml.Text

/-!
# Keys and values in TOML

* `path?`: a key, which may be dotted.
* `value?`: a value. Arrays and inline tables may be nested up to a fixed depth, on which the
  recursion goes.

An array may go over several lines and have comments in it, and may end with a comma. An inline
table stands on one line, apart from what its values do, and may not.
-/

namespace SqlFlow.Toml

/-! ## Keys -/

/-- One part of a key. -/
def keyPart? (cs : List Char) : Option (String × List Char) :=
  match cs.takeWhile isKeyChar with
  | [] => simpleString? cs
  | word => some (String.ofList word, cs.dropWhile isKeyChar)

/-- How many parts a key may have less one, and how many arrays and inline tables may hold each
other. -/
def depthLimit : Nat := 79

/-- A key of at most `limit` parts, with blanks around each of them. -/
def pathUpTo? : (limit : Nat) → Reader (List String)
  | 0, _ => none
  | limit + 1, cs =>
    match keyPart? (blanks cs) with
    | none => none
    | some (part, cs) =>
      match blanks cs with
      | '.' :: cs => (pathUpTo? limit cs).map fun (path, cs) => (part :: path, cs)
      | cs => some ([part], cs)

/-- A key. -/
def path? : Reader (List String) := pathUpTo? depthLimit

/-- A key and the equals sign behind it. -/
def pathEquals? (cs : List Char) : Option (List String × List Char) :=
  match path? cs with
  | some (path, '=' :: cs) => some (path, cs)
  | _ => none

/-! ## Arrays and inline tables -/

/-- The text behind blanks, newlines and comments, of which there may be at most `fuel`. -/
def filling : (fuel : Nat) → List Char → List Char
  | 0, cs => cs
  | fuel + 1, cs =>
    match newline? (comment (blanks cs)) with
    | some cs => filling fuel cs
    | none => blanks cs

/-- The text behind blanks, newlines and comments. -/
def behindFilling (cs : List Char) : List Char := filling (cs.length + 1) cs

/-- The items of an array behind its bracket, or behind a comma, and the closing bracket. -/
def arrayItems (value? : Reader Item) : (fuel : Nat) → Reader (List Item)
  | 0, _ => none
  | fuel + 1, cs =>
    match behindFilling cs with
    | ']' :: cs => some ([], cs)
    | cs =>
      match value? cs with
      | none => none
      | some (item, cs) =>
        match behindFilling cs with
        | ']' :: cs => some ([item], cs)
        | ',' :: cs => (arrayItems value? fuel cs).map fun (items, cs) => (item :: items, cs)
        | _ => none

/-- The keys and values of an inline table behind its brace, or behind a comma, and the closing
brace, all of which are put into `entries`. -/
def inlineEntries (value? : Reader Item) : (fuel : Nat) → Entries → Reader Entries
  | 0, _, _ => none
  | fuel + 1, entries, cs => do
    let (path, cs) ← pathEquals? cs
    let (item, cs) ← value? (blanks cs)
    let entries ← entries.put item path
    match blanks cs with
    | '\x7d' :: cs => some (entries, cs)
    | ',' :: cs => inlineEntries value? fuel entries cs
    | _ => none

/-- An inline table behind its brace. -/
def inlineTable (value? : Reader Item) (cs : List Char) : Option (Entries × List Char) :=
  match blanks cs with
  | '\x7d' :: cs => some ([], cs)
  | cs => inlineEntries value? (cs.length + 1) [] cs

/-- A value in which at most `depth` arrays and inline tables hold each other. -/
def valueWithin? : (depth : Nat) → Reader Item
  | _, '"' :: cs => (string? ('"' :: cs)).map fun (s, cs) => (.string s, cs)
  | _, '\'' :: cs => (string? ('\'' :: cs)).map fun (s, cs) => (.string s, cs)
  | depth + 1, '[' :: cs =>
    (arrayItems (valueWithin? depth) (cs.length + 1) cs).map fun (items, cs) => (.array items, cs)
  | depth + 1, '\x7b' :: cs =>
    (inlineTable (valueWithin? depth) cs).map fun (entries, cs) => (.inline entries, cs)
  | _, cs => (Scalar.ofWord? (Scalar.word cs).1).map fun item => (item, (Scalar.word cs).2)

/-- A value. -/
def value? : Reader Item := valueWithin? depthLimit

end SqlFlow.Toml
