import SqlFlow.Toml.Value

/-!
# TOML documents as texts

* `Document`: the tables so far, and the one that keys are given in at present.
* `Document.read?`: the tables of a whole text, and `none` if the text is not TOML.
* `codec`: settings are written each on a line of its own, and read off the keys of the root table.

A document is a sequence of expressions: blank lines, comments, keys with their values, and headers.
Each ends with its line.
-/

namespace SqlFlow.Toml

/-- A document that has been read up to some expression. -/
structure Document where
  root : Entries := []
  /-- The path of the last header. -/
  current : List String := []

namespace Document

/-- A path as the way to a table and the key in it. -/
def splitLast : List String → Option (List String × String)
  | [] => none
  | [key] => some ([], key)
  | key :: next :: path => (splitLast (next :: path)).map fun (way, last) => (key :: way, last)

/-- A table header behind its bracket. -/
def tableHeader? (d : Document) (cs : List Char) : Option (Document × List Char) := do
  let (path, cs) ← path? cs
  let (way, key) ← splitLast path
  match cs with
  | ']' :: cs => return ({ root := ← d.root.openTable way key, current := path }, ← lineEnd? cs)
  | _ => none

/-- An array-of-tables header behind its two brackets. -/
def elementHeader? (d : Document) (cs : List Char) : Option (Document × List Char) := do
  let (path, cs) ← path? cs
  let (way, key) ← splitLast path
  match cs with
  | ']' :: ']' :: cs =>
    return ({ root := ← d.root.openElement way key, current := path }, ← lineEnd? cs)
  | _ => none

/-- A key with its value. -/
def keyValue? (d : Document) (cs : List Char) : Option (Document × List Char) := do
  let (path, cs) ← pathEquals? cs
  let (item, cs) ← value? (blanks cs)
  return ({ d with root := ← d.root.within (·.put item path) d.current }, ← lineEnd? cs)

/-- An expression, or an empty line. -/
def expression? (d : Document) (cs : List Char) : Option (Document × List Char) :=
  match cs with
  | '[' :: '[' :: cs => d.elementHeader? cs
  | '[' :: cs => d.tableHeader? cs
  | cs =>
    match lineEnd? cs with
    | some cs => some (d, cs)
    | none => d.keyValue? cs

/-- Reads expressions to the end of the text. Each takes a character at least, so the length of the
text is fuel enough. -/
def expressions? : (fuel : Nat) → Document → List Char → Option Document
  | 0, _, _ => none
  | fuel + 1, d, cs =>
    match blanks cs with
    | [] => some d
    | c :: cs => (d.expression? (c :: cs)).bind fun (d, cs) => expressions? fuel d cs

/-- The text behind a byte order mark. -/
def behindMark : List Char → List Char
  | '\uFEFF' :: cs => cs
  | cs => cs

/-- Reads a document. -/
def read? (text : String) : Option Entries :=
  let cs := behindMark text.toList
  (expressions? (cs.length + 1) {} cs).map root

end Document

/-! ## Settings -/

/-- What the value of a setting is in a document. -/
def Field.item : Field → Item
  | .string s => .string s
  | .character c => .string (String.singleton c)
  | .boolean b => .boolean b

/-- A value as it is written. -/
def Field.written : Field → String
  | .string s => quote s
  | .character c => quote (String.singleton c)
  | .boolean b => if b then "true" else "false"

/-- The line of a key with its value. -/
def settingLine (setting : String × Field) : String :=
  setting.1 ++ " = " ++ setting.2.written ++ "\n"

namespace Item

def string? : Item → Option String
  | .string s => some s
  | _ => none

def boolean? : Item → Option Bool
  | .boolean b => some b
  | _ => none

/-- A string of one character. -/
def character? : Item → Option Char
  | .string s =>
    match s.toList with
    | [c] => some c
    | _ => none
  | _ => none

end Item

/-- Settings in documents of this syntax. -/
def codec : Codec where
  Item := Item
  item := Field.item
  write settings := String.join (settings.map settingLine)
  read? text := (Document.read? text).map Entries.find?
  string? := Item.string?
  character? := Item.character?
  boolean? := Item.boolean?

end SqlFlow.Toml
