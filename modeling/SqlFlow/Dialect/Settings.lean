import SqlFlow.Dialect
import SqlFlow.Toml.Codec

/-!
# Dialects in settings files

A dialect is kept as a TOML document with one key for each setting, which any codec may write and read.

* `Dialect.ofToml`: the dialect of a document, which has to be valid. A setting that is not there
  has its default, and other keys say nothing.
* `Dialect.load`: the same for a file.
* `Dialect.toToml`: the document of a dialect.
-/

namespace SqlFlow.Dialect

variable (T : Toml.Codec)

/-! ## Reading -/

/-- The setting under a key, or its default; nothing if the key stands for something else. -/
def setting? {α : Type} (table : String → Option T.Item) (key : String) (read : T.Item → Option α)
    (default : α) : Option α :=
  match table key with
  | none => some default
  | some item => read item

/-- The dialect that the keys of a document describe. -/
def ofTable? (table : String → Option T.Item) : Option Dialect := do
  return {
    marker := ← setting? T table "directive_marker" T.string? "--"
    terminator := ← setting? T table "terminator" T.character? ';'
    nestedComments := ← setting? T table "nested_comments" T.boolean? true
    doubleQuotedLiterals := ← setting? T table "double_quoted_literals" T.boolean? true
    requireConditions := ← setting? T table "require_conditions" T.boolean? true }

/-- Reads a dialect and validates it. -/
def ofToml (text : String) : Except DialectError Dialect :=
  match (T.read? text).bind (ofTable? T) with
  | none => .error .malformed
  | some d => d.validate

/-- Reads a dialect from the file at a path, which has a text or gives none. -/
def load (path : String) (file : Except ReadFault String) : Except DialectError Dialect :=
  match file with
  | .error fault => .error (.unreadable path fault)
  | .ok text => ofToml T text

/-! ## Writing -/

/-- The keys of a document with their values, in the order in which they are written. -/
def settings (d : Dialect) : List (String × Toml.Field) :=
  [("directive_marker", .string d.marker),
   ("terminator", .character d.terminator),
   ("nested_comments", .boolean d.nestedComments),
   ("double_quoted_literals", .boolean d.doubleQuotedLiterals),
   ("require_conditions", .boolean d.requireConditions)]

/-- Writes a dialect. -/
def toToml (d : Dialect) : String := T.write d.settings

end SqlFlow.Dialect
