/-!
# Documents of settings

Settings are kept in a TOML document: a document is written for keys with their values, and what the keys
of a document stand for is read from it. How that is done is the business of a codec.

* `Field`: the value of a setting.
* `Codec`: a writer and a reader of documents.
* `Plain`: settings that are written as they are, strings between double quotes.
* `Codec.Lawful`: what a codec keeps of such settings. A document is written line by line, lines are read as
  their keys with their values, and a string, a character and a boolean are found in what they are written
  as.
-/

namespace SqlFlow.Toml

/-- The value of a setting. -/
inductive Field where
  | string (s : String)
  | character (c : Char)
  | boolean (b : Bool)
deriving DecidableEq, Repr

/-- A writer and a reader of documents. -/
structure Codec where
  /-- What a key of a document stands for. -/
  Item : Type
  /-- What a value is written as. -/
  item : Field → Item
  /-- The document of keys with their values. -/
  write : List (String × Field) → String
  /-- What the keys of a document stand for. There is nothing if the text is no document. -/
  read? : String → Option (String → Option Item)
  /-- The string that an item is. -/
  string? : Item → Option String
  /-- The character that an item is: a string of one character. -/
  character? : Item → Option Char
  /-- The boolean that an item is. -/
  boolean? : Item → Option Bool

/-! ## Plain settings -/

/-- Whether a character stands for itself between double quotes: it is no double quote, no backslash and no
control character. -/
def isPlain (c : Char) : Bool :=
  c != '"' && c != '\\' && 0x20 ≤ c.toNat && c.toNat != 0x7F

/-- Whether a value is written with plain characters only. -/
def Field.isPlain : Field → Bool
  | .string s => s.toList.all Toml.isPlain
  | .character c => Toml.isPlain c
  | .boolean _ => true

/-- Whether a character may stand in a key without quotes. -/
def isKeyChar (c : Char) : Bool := c.isAlphanum || c == '_' || c == '-'

/-- A key that is written without quotes. -/
structure BareKey (key : String) : Prop where
  ne_nil : key.toList ≠ []
  keyChar : ∀ c ∈ key.toList, isKeyChar c = true

/-- Settings that are written plainly, and of which no key is given twice. -/
structure Plain (settings : List (String × Field)) : Prop where
  key : ∀ setting ∈ settings, BareKey setting.1
  value : ∀ setting ∈ settings, setting.2.isPlain = true
  nodup : (settings.map Prod.fst).Nodup

namespace Codec

variable (T : Codec)

/-- The line of a key with its value. -/
def line (setting : String × Field) : String := T.write [setting]

/-- Plain settings are written and read faithfully. -/
structure Lawful : Prop where
  /-- A document is written line by line. -/
  write_eq : ∀ settings, Plain settings → T.write settings = String.join (settings.map T.line)
  /-- Lines with different keys are read as these keys with their values. -/
  read?_lines : ∀ settings, Plain settings →
    T.read? (String.join (settings.map T.line)) = some fun key => (settings.lookup key).map T.item
  string?_item : ∀ s, (Field.string s).isPlain = true → T.string? (T.item (.string s)) = some s
  character?_item : ∀ c, (Field.character c).isPlain = true →
    T.character? (T.item (.character c)) = some c
  boolean?_item : ∀ b, T.boolean? (T.item (.boolean b)) = some b

end Codec

end SqlFlow.Toml
