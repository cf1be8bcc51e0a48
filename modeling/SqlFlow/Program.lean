import SqlFlow.Directive
import SqlFlow.SyntaxError

/-!
# Programs

A program is the flat form of a script that is run: its statements in the order of the text, where
a directive that branches names the statement to branch to by its index.

* `Statement` and `StatementKind`: one line of a program.
* `Program`: the statements, and the error that cut them short if there is one.
* `Program.executable`: whether the program may be run, which is to say that its last statement does
  not stand for an error.
-/

namespace SqlFlow

/-- What a statement does when it is run. -/
inductive StatementKind where
  /-- Sends its text to the database. -/
  | sql
  /-- Directs the flow of control. -/
  | directive (d : Directive)
  /-- Stands for the place where a script is at fault, and is never run. -/
  | invalid
deriving DecidableEq, Repr

namespace StatementKind

/-- The kind's name: for a directive its keyword. -/
def keyword : StatementKind → String
  | sql => "sql"
  | directive d => d.keyword
  | invalid => "parse-error"

def isDirective : StatementKind → Bool
  | directive _ => true
  | sql | invalid => false

/-- Whether a statement of this kind has a target in a program without errors. -/
def branches : StatementKind → Bool
  | directive d => d.branches
  | sql | invalid => false

end StatementKind

/-- A statement of a program. -/
structure Statement where
  kind : StatementKind
  /-- The SQL text, or the text of the directive. -/
  text : String
  /-- The index of the statement to branch to. -/
  target : Option Nat := none
  /-- The line of the script that the statement starts on. -/
  line : Nat
deriving DecidableEq, Repr

/-- A script with its blocks resolved. -/
structure Program where
  statements : Array Statement
  /-- What is wrong with the script; the last statement then stands for the place. -/
  error? : Option SyntaxError
deriving DecidableEq, Repr

namespace Program

/-- The statement at an index. -/
def get? (p : Program) (i : Nat) : Option Statement := p.statements[i]?

/-- The number of statements, one that stands for an error included. -/
def size (p : Program) : Nat := p.statements.size

/-- Whether the program may be run. -/
def executable (p : Program) : Bool :=
  match p.statements.back? with
  | none => true
  | some s => s.kind != .invalid

end Program

end SqlFlow
