import SqlFlow.Dialect
import SqlFlow.Directive
import SqlFlow.Source.Comment

/-!
# Directive lines

A directive line is the marker of the dialect, the keyword right behind it, and the rest of the
line. The keyword is a longest run of ASCII letters, and a blank, the terminator or the end of the
source has to follow it, so `--iffy` and `--if(1)` are no directives.

* `DirectiveLine.read?`: the directive line at the head of a source. Whether one may start there is
  for the splitter to say.
* `DirectiveLine.length_rest_lt`: a directive line takes at least its marker off the source.
-/

namespace SqlFlow.Source

/-- A directive line, and the source from its newline on. -/
structure DirectiveLine where
  directive : Directive
  /-- What follows the keyword, without blanks and terminators at its end. -/
  text : List Char
  /-- The whole line. -/
  raw : List Char
  rest : List Char

namespace DirectiveLine

/-- Whether the source may go on like this behind a keyword. -/
def endsKeyword (d : Dialect) : List Char → Bool
  | [] => true
  | c :: _ => Text.isBlank c || c == d.terminator

/-- The text of a directive: the line behind the keyword without blanks around it and without
terminators at its end, which belong to the line and not to the text. -/
def argument (d : Dialect) (behind : List Char) : List Char :=
  Text.trimRight (Text.dropRight (· == d.terminator) (Text.trim behind))

/-- The directive line that `word` makes with the source behind it. -/
def ofWord? (d : Dialect) (word behind : List Char) : Option DirectiveLine :=
  if endsKeyword d behind then
    (Directive.ofKeyword? word).map fun directive =>
      { directive
        text := argument d (line behind)
        raw := Text.trim (d.marker.toList ++ word ++ line behind)
        rest := afterLine behind }
  else none

/-- Reads a directive line. An empty marker marks nothing. -/
def read? (d : Dialect) (cs : List Char) : Option DirectiveLine :=
  let marker := d.marker.toList
  if !marker.isEmpty && marker.isPrefixOf cs then
    let marked := cs.drop marker.length
    ofWord? d (marked.takeWhile Char.isAlpha) (marked.dropWhile Char.isAlpha)
  else none

theorem length_rest_lt {d : Dialect} {cs : List Char} {l : DirectiveLine}
    (h : read? d cs = some l) : l.rest.length < cs.length := by
  simp only [read?, ofWord?] at h
  split at h
  · rename_i hm
    split at h
    · obtain ⟨directive, _, rfl⟩ := Option.map_eq_some_iff.1 h
      simp only [Bool.and_eq_true, Bool.not_eq_true', List.isEmpty_eq_false_iff,
        List.isPrefixOf_iff_prefix] at hm
      have h₁ : (afterLine ((cs.drop d.marker.toList.length).dropWhile Char.isAlpha)).length
          ≤ (cs.drop d.marker.toList.length).length :=
        Nat.le_trans (List.dropWhile_sublist _).length_le (List.dropWhile_sublist _).length_le
      have h₂ := List.length_pos_iff.2 hm.1
      have h₃ := hm.2.length_le
      simp only [List.length_drop] at h₁ ⊢
      omega
    · contradiction
  · contradiction

end DirectiveLine

end SqlFlow.Source
