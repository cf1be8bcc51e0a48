import SqlFlow.Fragment
import SqlFlow.Source.DirectiveLine
import SqlFlow.Source.Lexeme

/-!
# Splitting a script into fragments

One pass over the source, from lexeme to lexeme and from directive line to directive line.

* `Pending`: the statement being read. It is a stretch of the source, so nothing is copied until the
  statement ends, and its text is by construction what is written there.
* `Cursor`: what has to be remembered of the source already read.
* `Cursor.turn`: what the pass does at one lexeme or directive line; `Cursor.length_turn_rest_lt` says
  that it gets on, so that the pass ends.
* `Fragment.scan` and `Fragment.split`: the pass from a cursor on, and over a whole script.

A statement starts at its first character of content or its first literal: blanks and comments before
that belong to no fragment, blanks and comments after it belong to the statement. A directive line
may start where the line holds only blanks so far, even in the middle of a statement, which it then
ends; and also behind a comment or a terminator on the same line, where no statement is pending.
-/

namespace SqlFlow

/-- A directive line as a fragment. -/
def Source.DirectiveLine.fragment (l : DirectiveLine) (line : Nat) : Fragment :=
  ⟨.directive l.directive, String.ofList l.text, String.ofList l.raw, line⟩

/-- A statement that has started and not ended. -/
structure Pending where
  /-- The source from the first character of the statement on. -/
  start : List Char
  /-- How many characters of it have been read. -/
  length : Nat
  /-- The line of its first character. -/
  line : Nat

namespace Pending

/-- What has been read of the statement, without blanks at its end. -/
def text (p : Pending) : String := String.ofList (Text.trim (p.start.take p.length))

/-- The statement as a fragment. -/
def fragment (p : Pending) : Fragment := ⟨.sql, p.text, p.text, p.line⟩

/-- The statement after `n` more characters. -/
def extend (p : Pending) (n : Nat) : Pending := { p with length := p.length + n }

end Pending

/-- What is remembered of the source already read. -/
structure Cursor where
  /-- The current line, counted from one. -/
  line : Nat := 1
  /-- Whether the line holds only blanks so far. -/
  lineBlank : Bool := true
  /-- The statement being read, if one has started since the last boundary. -/
  pending : Option Pending := none

namespace Cursor

open Source

/-- Whether a directive line may start here. -/
def admitsDirective (s : Cursor) : Bool := s.lineBlank || s.pending.isNone

/-- The statement being read, as the fragment that a boundary makes of it. -/
def statement (s : Cursor) : List Fragment := s.pending.toList.map Pending.fragment

/-- No statement is pending behind a boundary. -/
def atBoundary (s : Cursor) : Cursor := { s with pending := none }

/-- Counts the newlines of what was read. -/
def advance (s : Cursor) (read : List Char) : Cursor :=
  { s with line := s.line + read.count '\n' }

/-- Reads a lexeme that belongs to the statement being read, if there is one. -/
def skip (s : Cursor) (read : List Char) : Cursor :=
  { s.advance read with pending := s.pending.map (·.extend read.length) }

/-- Reads a lexeme that belongs to a statement, which it starts if none is pending; `here` is the
source from the lexeme on. -/
def take (s : Cursor) (here read : List Char) : Cursor :=
  { s.advance read with
    pending := some ((s.pending.getD ⟨here, 0, s.line⟩).extend read.length) }

/-- The cursor is no longer at the start of its line. -/
def inLine (s : Cursor) : Cursor := { s with lineBlank := false }

/-- The cursor behind a lexeme that neither ends a statement nor runs to the end of the source. -/
def after (s : Cursor) (here : List Char) (l : Lexeme) : Cursor :=
  match l.kind with
  | .newline => { s.skip l.text with lineBlank := true }
  | .blank => s.skip l.text
  | .comment => (s.skip l.text).inLine
  | _ => (s.take here l.text).inLine

/-- The last fragment of a source with a construct that does not end: everything from the start of
the pending statement, or else from the construct itself, which is `here`. -/
def fault (s : Cursor) (error : SyntaxError) (here : List Char) : Fragment :=
  let raw := String.ofList (Text.trim ((s.pending.map Pending.start).getD here))
  ⟨.fault error, raw, raw, error.line⟩

/-- The directive line at the cursor, if one may start there. -/
def directive? (d : Dialect) (s : Cursor) (here : List Char) : Option DirectiveLine :=
  if s.admitsDirective then DirectiveLine.read? d here else none

/-- What one turn of the pass comes to. -/
inductive Turn where
  /-- The pass goes on behind a directive line or a lexeme, with the fragments that ended there. -/
  | onward (ended : List Fragment) (cursor : Cursor) (rest : List Char)
  /-- The source ends inside a construct. -/
  | broken (last : Fragment)

/-- The turn at a lexeme, with `here` as the source from the lexeme on. -/
def turnAt (s : Cursor) (here : List Char) (l : Lexeme) : Turn :=
  match l.kind with
  | .openComment => .broken (s.fault (.unterminatedComment s.line) here)
  | .openLiteral quote => .broken (s.fault (.unterminatedLiteral s.line quote) here)
  | .terminator => .onward s.statement s.atBoundary.inLine l.rest
  | _ => .onward [] (s.after here l) l.rest

/-- The turn at the head of the source `c :: cs`. A directive line goes before every lexeme. -/
def turn (d : Dialect) (s : Cursor) (c : Char) (cs : List Char) : Turn :=
  match s.directive? d (c :: cs) with
  | some l => .onward (s.statement ++ [l.fragment s.line]) s.atBoundary l.rest
  | none => s.turnAt (c :: cs) (Lexeme.next d c cs)

theorem rest_of_turnAt {s next : Cursor} {here rest : List Char} {l : Lexeme}
    {ended : List Fragment} (h : s.turnAt here l = .onward ended next rest) : rest = l.rest := by
  cases hk : l.kind <;> simp only [turnAt, hk] at h <;> cases h <;> rfl

/-- Each turn takes at least one character off the source. -/
theorem length_turn_rest_lt {d : Dialect} {s next : Cursor} {c : Char} {cs rest : List Char}
    {ended : List Fragment} (h : s.turn d c cs = .onward ended next rest) :
    rest.length < (c :: cs).length := by
  unfold turn at h
  split at h
  · rename_i l hl
    cases h
    simp only [directive?] at hl
    split at hl
    · exact DirectiveLine.length_rest_lt hl
    · cases hl
  · rw [rest_of_turnAt h]
    exact Lexeme.length_rest_lt d c cs

end Cursor

namespace Fragment

/-- The fragments of the source from the cursor on. -/
def scan (d : Dialect) (s : Cursor) : List Char → List Fragment
  | [] => s.statement
  | c :: cs =>
    match _h : s.turn d c cs with
    | .onward ended next rest => ended ++ scan d next rest
    | .broken last => [last]
termination_by cs => cs.length
decreasing_by exact Cursor.length_turn_rest_lt _h

/-- The fragments of a script. -/
def split (d : Dialect) (source : String) : List Fragment := scan d {} source.toList

end Fragment

end SqlFlow
