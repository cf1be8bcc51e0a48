/-!
# Directives

The control words of a script. A directive stands on a line of its own, behind the marker of the
dialect; what follows its keyword on that line is its text.

* `Directive`: the eleven control words.
* `Directive.keyword` and `Directive.ofKeyword?`: their spelling, and its inverse up to the case of
  ASCII letters (`ofKeyword?_keyword`).
* `Directive.branches`: the directives from which control can go elsewhere than to the next line.
-/

namespace SqlFlow

/-- A control word. -/
inductive Directive where
  /-- Opens a chain of conditional bodies. -/
  | ifThen
  /-- Opens a further body of the chain, under a condition of its own. -/
  | elseIf
  /-- Opens the body of the chain for when no condition held. -/
  | otherwise
  /-- Closes the chain. -/
  | endIf
  /-- Opens a body whose failures are handled. -/
  | attempt
  /-- Opens a body whose failures are handled and which is one transaction. -/
  | attemptTransaction
  /-- Opens the handler of such a body. -/
  | handler
  /-- Closes the handler. -/
  | endAttempt
  /-- Opens a block that is one transaction. -/
  | beginTransaction
  /-- Closes such a block, committing it. -/
  | endTransaction
  /-- Reports its text and does nothing else. -/
  | debug
deriving DecidableEq, Repr

namespace Directive

/-- Every directive, once. -/
def all : List Directive :=
  [ifThen, elseIf, otherwise, endIf, attempt, attemptTransaction, handler, endAttempt,
   beginTransaction, endTransaction, debug]

/-- The word as it is written in a script and in messages. -/
def keyword : Directive → String
  | ifThen => "if"
  | elseIf => "elseif"
  | otherwise => "else"
  | endIf => "endif"
  | attempt => "try"
  | attemptTransaction => "trytransaction"
  | handler => "catch"
  | endAttempt => "endtry"
  | beginTransaction => "begin"
  | endTransaction => "endtransaction"
  | debug => "debug"

/-- The directive that a word spells, in any case of its ASCII letters. -/
def ofKeyword? (word : List Char) : Option Directive :=
  all.find? fun d => d.keyword.toList == word.map Char.toLower

/-- No two directives share a keyword, so each is found by its own. -/
theorem ofKeyword?_keyword (d : Directive) : ofKeyword? d.keyword.toList = some d := by
  cases d <;> decide

/-- Whether control may go from this directive to a statement that is not the next one: a member of
a chain, an opener whose body may fail, and a handler, which is passed over when nothing failed. -/
def branches : Directive → Bool
  | ifThen | elseIf | otherwise | attempt | attemptTransaction | handler => true
  | endIf | endAttempt | beginTransaction | endTransaction | debug => false

end Directive

end SqlFlow
