import Mathlib.Data.List.Nodup
import SqlFlow.Dialect.Settings
import SqlFlow.Proofs.Toml.RoundTrip

/-!
# Settings files that are read back

What a lawful codec writes for a dialect is read as that dialect, as a whole and in part.

* `keeping`: the dialect of some of the settings, with the defaults for the others.
* `ofTable?_keeping`: the dialect of a table with some of the keys. Each key is read as what it is written
  from, and one that is not there has the default of its setting.
* `ofToml_toToml`: the document of a dialect, and any of its lines in any order.
-/

namespace SqlFlow.Dialect

open Toml

/-- The value of the dialect under a key. -/
def field (d : Dialect) : String → Field
  | "directive_marker" => .string d.marker
  | "terminator" => .character d.terminator
  | "nested_comments" => .boolean d.nestedComments
  | "double_quoted_literals" => .boolean d.doubleQuotedLiterals
  | _ => .boolean d.requireConditions

/-- The dialect with the settings under the given keys, and with the defaults for the others. -/
def keeping (d : Dialect) (keys : List String) : Dialect where
  marker := if "directive_marker" ∈ keys then d.marker else ({} : Dialect).marker
  terminator := if "terminator" ∈ keys then d.terminator else ({} : Dialect).terminator
  nestedComments :=
    if "nested_comments" ∈ keys then d.nestedComments else ({} : Dialect).nestedComments
  doubleQuotedLiterals :=
    if "double_quoted_literals" ∈ keys then d.doubleQuotedLiterals
    else ({} : Dialect).doubleQuotedLiterals
  requireConditions :=
    if "require_conditions" ∈ keys then d.requireConditions else ({} : Dialect).requireConditions

variable {T : Codec} {d : Dialect} {chosen : List (String × Field)}

theorem snd_eq_field {setting : String × Field} (h : setting ∈ d.settings) :
    setting.2 = d.field setting.1 := by
  simp only [settings, List.mem_cons, List.not_mem_nil, or_false] at h
  rcases h with rfl | rfl | rfl | rfl | rfl <;> rfl

theorem keeping_keys (d : Dialect) : d.keeping (d.settings.map Prod.fst) = d := by
  simp [keeping, settings]

/-! ## Some of the settings -/

/-- Of the settings that are chosen, a key has the value of the dialect. -/
theorem lookup_eq (h : chosen ⊆ d.settings) (key : String) :
    chosen.lookup key = if key ∈ chosen.map Prod.fst then some (d.field key) else none := by
  induction chosen with
  | nil => rfl
  | cons setting chosen ih =>
    obtain ⟨hsetting, hchosen⟩ := List.cons_subset.1 h
    rw [List.lookup_cons, ih hchosen, snd_eq_field hsetting]
    by_cases hkey : key = setting.1
    · simp [hkey]
    · have hne : (key == setting.1) = false := by simpa using hkey
      have hmem : key ∈ (setting :: chosen).map Prod.fst ↔ key ∈ chosen.map Prod.fst := by simp [hkey]
      simp only [hne, hmem]

/-- The settings that are chosen are written plainly if the marker and the terminator are. -/
theorem plain_of_subset (hmarker : (Field.string d.marker).isPlain = true)
    (hterminator : (Field.character d.terminator).isPlain = true) (h : chosen ⊆ d.settings)
    (hnodup : chosen.Nodup) : Plain chosen where
  key := by
    have hbare : ∀ key ∈ ["directive_marker", "terminator", "nested_comments",
        "double_quoted_literals", "require_conditions"], key.toList ≠ [] ∧ key.toList.all isKeyChar := by
      decide
    intro setting hsetting
    obtain ⟨hne, hchars⟩ := hbare setting.1 (List.mem_map_of_mem (f := Prod.fst) (h hsetting))
    exact ⟨hne, List.all_eq_true.1 hchars⟩
  value := by
    intro setting hsetting
    have hmem := h hsetting
    simp only [settings, List.mem_cons, List.not_mem_nil, or_false] at hmem
    rcases hmem with rfl | rfl | rfl | rfl | rfl
    · exact hmarker
    · exact hterminator
    all_goals rfl
  nodup :=
    -- the key says what the value is
    hnodup.map_on fun x hx y hy hkey => Prod.ext hkey (by
      rw [snd_eq_field (h hx), snd_eq_field (h hy), hkey])

/-- A table with the settings under some keys is that of the dialect with the defaults for the others. -/
theorem ofTable?_keeping (hT : T.Lawful) (hmarker : (Field.string d.marker).isPlain = true)
    (hterminator : (Field.character d.terminator).isPlain = true) (keys : List String) :
    ofTable? T (fun key => if key ∈ keys then some (T.item (d.field key)) else none) =
      some (d.keeping keys) := by
  have hsetting : ∀ {α : Type} (key : String) (read : T.Item → Option α) (value default : α),
      read (T.item (d.field key)) = some value →
      setting? T (fun key => if key ∈ keys then some (T.item (d.field key)) else none) key read default =
        some (if key ∈ keys then value else default) := by
    intro α key read value default hread
    unfold setting?
    by_cases h : key ∈ keys
    · simp [h, hread]
    · simp [h]
  rw [ofTable?, hsetting "directive_marker" T.string? d.marker "--" (hT.string?_item _ hmarker),
    hsetting "terminator" T.character? d.terminator ';' (hT.character?_item _ hterminator),
    hsetting "nested_comments" T.boolean? d.nestedComments true (hT.boolean?_item _),
    hsetting "double_quoted_literals" T.boolean? d.doubleQuotedLiterals true (hT.boolean?_item _),
    hsetting "require_conditions" T.boolean? d.requireConditions true (hT.boolean?_item _)]
  rfl

/-- Lines of a dialect, each at most once and in whatever order, are read as the dialect that has the
defaults for the others. -/
theorem ofToml_lines (hT : T.Lawful) (hmarker : (Field.string d.marker).isPlain = true)
    (hterminator : (Field.character d.terminator).isPlain = true) (h : chosen ⊆ d.settings)
    (hnodup : chosen.Nodup) :
    ofToml T (String.join (chosen.map T.line)) = (d.keeping (chosen.map Prod.fst)).validate := by
  have hread := hT.read?_lines chosen (plain_of_subset hmarker hterminator h hnodup)
  have htable : (fun key => (chosen.lookup key).map T.item) =
      fun key => if key ∈ chosen.map Prod.fst then some (T.item (d.field key)) else none := by
    funext key
    rw [lookup_eq h]
    split <;> rfl
  rw [ofToml, hread, Option.bind_some, htable, ofTable?_keeping hT hmarker hterminator]

/-- Where marker and terminator are written plainly, the document of a dialect is read as that dialect, which
is then validated. So are some of its lines, each at most once and in whatever order, with the defaults for
the others. -/
theorem ofToml_toToml (hT : T.Lawful) (hmarker : (Field.string d.marker).isPlain = true)
    (hterminator : (Field.character d.terminator).isPlain = true) :
    ofToml T (d.toToml T) = d.validate ∧
    ∀ chosen : List (String × Field), chosen ⊆ d.settings → chosen.Nodup →
      ofToml T (String.join (chosen.map T.line)) = (d.keeping (chosen.map Prod.fst)).validate := by
  refine ⟨?_, fun chosen h hnodup => ofToml_lines hT hmarker hterminator h hnodup⟩
  have hnodup : (d.settings.map Prod.fst).Nodup := by simp [settings]
  have hplain := plain_of_subset hmarker hterminator (List.Subset.refl d.settings) hnodup.of_map
  have hall := ofToml_lines hT hmarker hterminator (List.Subset.refl d.settings) hnodup.of_map
  rwa [keeping_keys, ← hT.write_eq _ hplain] at hall

/-- Two lines, the last one of the document first. -/
theorem ofToml_terminator_then_marker :
    let d : Dialect := { marker := "#!", terminator := '→', nestedComments := false }
    let chosen : List (String × Field) :=
      [("terminator", .character '→'), ("directive_marker", .string "#!")]
    codec.Lawful ∧ (Field.string d.marker).isPlain = true ∧
      (Field.character d.terminator).isPlain = true ∧ chosen ⊆ d.settings ∧ chosen.Nodup ∧
      ofToml codec (d.toToml codec) = .ok d ∧
      ofToml codec "terminator = \"→\"\ndirective_marker = \"#!\"\n" =
        .ok { marker := "#!", terminator := '→' } := by
  intro d chosen
  have hmarker : (Field.string d.marker).isPlain = true := by decide
  have hterminator : (Field.character d.terminator).isPlain = true := by decide
  have h : chosen ⊆ d.settings := by decide
  have hnodup : chosen.Nodup := by decide
  obtain ⟨hall, hsome⟩ := ofToml_toToml codec_lawful hmarker hterminator
  have hlines : String.join (chosen.map codec.line) = "terminator = \"→\"\ndirective_marker = \"#!\"\n" := by
    decide
  refine ⟨codec_lawful, hmarker, hterminator, h, hnodup, hall.trans (by decide), ?_⟩
  rw [← hlines, hsome chosen h hnodup]
  decide

end SqlFlow.Dialect
