import SqlFlow.Dialect
import SqlFlow.Source.Comment
import SqlFlow.SyntaxError

/-!
# Lexemes

The smallest parts of a script that are not directive lines, by what they mean for splitting it.

* `Lexeme.next`: the lexeme at the head of a source that is not empty.
* `Lexeme.text_append_rest`: a lexeme and the rest after it are the source.
* `Lexeme.length_rest_lt`: a lexeme is never empty.
-/

namespace SqlFlow.Source

/-- What a lexeme means for splitting. -/
inductive LexemeKind where
  | newline
  /-- White space other than a newline. -/
  | blank
  | comment
  | literal
  /-- Ends a statement. -/
  | terminator
  /-- Any other character of a statement. -/
  | content
  /-- A block comment that does not end. -/
  | openComment
  /-- A literal that does not end. -/
  | openLiteral (quote : Char)
deriving DecidableEq, Repr

/-- A lexeme, and the source behind it. -/
structure Lexeme where
  kind : LexemeKind
  text : List Char
  rest : List Char

namespace Lexeme

/-- A construct that `opener` opens and a reader has ended, or that takes the whole source. -/
def delimited (closed unclosed : LexemeKind) (opener behind : List Char) : Taken → Lexeme
  | some (body, rest) => ⟨closed, opener ++ body, rest⟩
  | none => ⟨unclosed, opener ++ behind, []⟩

/-- Whether `c` opens a literal in the dialect. -/
def opensLiteral (d : Dialect) (c : Char) : Bool :=
  c == '\'' || (c == '"' && d.doubleQuotedLiterals)

/-- The lexeme at the head of the source `c :: cs`. Blanks come first, so that a dialect whose
terminator is a blank never ends a statement; comments come before literals, literals before the
terminator. -/
def next (d : Dialect) (c : Char) (cs : List Char) : Lexeme :=
  if c == '\n' then ⟨.newline, [c], cs⟩
  else if Text.isBlank c then ⟨.blank, [c], cs⟩
  else if c == '-' && cs.head? == some '-' then ⟨.comment, line (c :: cs), afterLine (c :: cs)⟩
  else if c == '/' && cs.head? == some '*' then
    delimited .comment .openComment ['/', '*'] cs.tail (commentBody? d.nestedComments 0 cs.tail)
  else if opensLiteral d c then
    delimited .literal (.openLiteral c) [c] cs (literalBody? c cs)
  else if c == d.terminator then ⟨.terminator, [c], cs⟩
  else ⟨.content, [c], cs⟩

theorem delimited_append {closed unclosed : LexemeKind} {opener behind : List Char} {t : Taken}
    (h : ∀ {body rest}, t = some (body, rest) → body ++ rest = behind) :
    (delimited closed unclosed opener behind t).text ++
      (delimited closed unclosed opener behind t).rest = opener ++ behind := by
  match t with
  | none => simp [delimited]
  | some (body, rest) => simp [delimited, ← h rfl]

/-- Nothing of the source is lost between a lexeme and the rest. -/
theorem text_append_rest (d : Dialect) (c : Char) (cs : List Char) :
    (next d c cs).text ++ (next d c cs).rest = c :: cs := by
  simp only [next]
  split
  · rfl
  split
  · rfl
  split
  · exact line_append_afterLine _
  split
  · rename_i h
    simp only [Bool.and_eq_true, beq_iff_eq] at h
    rw [delimited_append commentBody?_append, h.1]
    cases cs with
    | nil => simp at h
    | cons c' cs => simp_all
  split
  · rw [delimited_append literalBody?_append]; rfl
  split <;> rfl

/-- A lexeme holds at least one character. -/
theorem length_rest_lt (d : Dialect) (c : Char) (cs : List Char) :
    (next d c cs).rest.length < (c :: cs).length := by
  have hdel : ∀ {closed unclosed opener behind} {t : Taken}, opener ≠ [] →
      (delimited closed unclosed opener behind t).text ≠ [] := by
    intro closed unclosed opener behind t ho
    match t with
    | none => simp [delimited, ho]
    | some (body, rest) => simp [delimited, ho]
  have hne : (next d c cs).text ≠ [] := by
    simp only [next]
    repeat' split
    all_goals try exact List.cons_ne_nil _ _
    · rename_i hn _ _
      simp [line, bne, hn]
    · exact hdel (List.cons_ne_nil _ _)
    · exact hdel (List.cons_ne_nil _ _)
  have := congrArg List.length (text_append_rest d c cs)
  rw [List.length_append] at this
  have := List.length_pos_iff.2 hne
  omega

end Lexeme

end SqlFlow.Source
