import SqlFlow.Directive
import SqlFlow.SyntaxError

/-!
# Fragments

A script is split into fragments before its blocks are matched up: the SQL statements and directive
lines in the order of the text. A construct that does not end makes one last fragment of its own.
-/

namespace SqlFlow

/-- What a fragment holds. A SQL statement that is handed over as a directive line would be assembled just
as a SQL statement is, so there is no kind of its own for it. -/
inductive FragmentKind where
  /-- A SQL statement. -/
  | sql
  /-- A directive line. -/
  | directive (d : Directive)
  /-- Everything from the last boundary on, where a comment or a literal in it does not end. -/
  | fault (error : SyntaxError)
deriving DecidableEq, Repr

/-- A piece of a script. -/
structure Fragment where
  kind : FragmentKind
  /-- The statement, or what follows the keyword of a directive. -/
  text : String
  /-- The piece as it is written: for a directive the whole line. -/
  raw : String
  /-- The line it starts on, counted from one. -/
  line : Nat
deriving DecidableEq, Repr

end SqlFlow
