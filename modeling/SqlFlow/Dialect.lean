import SqlFlow.Source.ReadFault
import SqlFlow.Text.Blank

/-!
# Dialects

The lexical settings under which a script is split: how a directive line is marked, what ends a
statement, and what counts as a comment and as a literal.

* `Dialect`: the five settings, with their defaults.
* `Dialect.validate`: the settings that cannot be confused with each other or with quoting;
  `validate_eq_ok_iff` says which they are.
* `DialectError`: why a dialect was not obtained.

Nothing else in the library depends on a dialect being valid: splitting is total for every dialect.
-/

namespace SqlFlow

/-- The settings of a script's surface form. -/
structure Dialect where
  /-- What stands before the keyword of a directive line. -/
  marker : String := "--"
  /-- The character that ends a statement. -/
  terminator : Char := ';'
  /-- Whether a block comment may hold block comments. -/
  nestedComments : Bool := true
  /-- Whether a double quote opens a literal, as a single quote always does. -/
  doubleQuotedLiterals : Bool := true
  /-- Whether `if` and `elseif` without a condition are refused. -/
  requireConditions : Bool := true
deriving DecidableEq, Repr

instance : Inhabited Dialect := ⟨{}⟩

/-- Why a dialect was not obtained. -/
inductive DialectError where
  /-- The settings file could not be read. -/
  | unreadable (path : String) (fault : ReadFault)
  /-- The settings are not TOML, or a setting has a value of the wrong type. -/
  | malformed
  /-- A setting has a value that no script can be split under. -/
  | invalidValue (field reason : String)
deriving DecidableEq, Repr

def DialectError.message : DialectError → String
  | unreadable path fault => s!"cannot read config file {path}: {fault.message}"
  | malformed => "invalid config"
  | invalidValue field reason => s!"invalid value for {field}: {reason}"

namespace Dialect

/-- Whether `c` opens a literal under some dialect. -/
def isQuote (c : Char) : Bool := c == '\'' || c == '"'

/-- The first setting found at fault, if any: a marker that is empty or blank, a marker with a blank
in it, a terminator that is a blank or a quote, a marker with the terminator in it. -/
def fault? (d : Dialect) : Option DialectError :=
  if Text.allBlank d.marker.toList then
    some (.invalidValue "directive_marker" "must not be empty")
  else if d.marker.toList.any Text.isBlank then
    some (.invalidValue "directive_marker" "must not contain whitespace")
  else if Text.isBlank d.terminator || isQuote d.terminator then
    some (.invalidValue "terminator" s!"'{d.terminator}' cannot terminate statements")
  else if d.marker.toList.contains d.terminator then
    some (.invalidValue "directive_marker" "must not contain the terminator")
  else none

/-- The dialect itself if it has no fault. -/
def validate (d : Dialect) : Except DialectError Dialect :=
  match d.fault? with
  | some fault => .error fault
  | none => .ok d

/-- A dialect is valid when its marker is a word, its terminator is a visible character that opens
no literal, and the terminator does not occur in the marker. -/
structure Valid (d : Dialect) : Prop where
  marker_ne : d.marker.toList ≠ []
  marker_visible : ∀ c ∈ d.marker.toList, Text.isBlank c = false
  terminator_visible : Text.isBlank d.terminator = false
  terminator_not_quote : isQuote d.terminator = false
  terminator_not_mem : d.terminator ∉ d.marker.toList

theorem fault?_eq_none_iff {d : Dialect} : d.fault? = none ↔ d.Valid := by
  constructor
  · intro h
    simp only [fault?] at h
    repeat' split at h
    all_goals try contradiction
    rename_i h₁ h₂ h₃ h₄
    simp only [Bool.or_eq_true, not_or, Bool.not_eq_true] at h₃
    refine ⟨?_, ?_, h₃.1, h₃.2, ?_⟩
    · rintro hm
      simp [hm, Text.allBlank] at h₁
    · intro c hc
      simp only [List.any_eq_true, not_exists, not_and, Bool.not_eq_true] at h₂
      exact h₂ c hc
    · simpa using h₄
  · intro h
    have h₁ : Text.allBlank d.marker.toList = false := by
      cases hm : d.marker.toList with
      | nil => exact absurd hm h.marker_ne
      | cons c cs =>
        have := h.marker_visible c (by simp [hm])
        simp [Text.allBlank, this]
    have h₂ : d.marker.toList.any Text.isBlank = false := by
      rw [List.any_eq_false]
      intro c hc
      simp [h.marker_visible c hc]
    simp [fault?, h₁, h₂, h.terminator_visible, h.terminator_not_quote, h.terminator_not_mem]

theorem validate_eq_ok_iff {d e : Dialect} : d.validate = .ok e ↔ d.Valid ∧ d = e := by
  rw [← fault?_eq_none_iff, validate]
  split <;> simp_all

end Dialect

end SqlFlow
