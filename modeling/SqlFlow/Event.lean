import SqlFlow.Program
import SqlFlow.ScriptError

/-!
# Events

What assembling and running a script tell to whoever follows along. An event says what happened and
with what; `Event.entry` is its form in a log.
-/

namespace SqlFlow

/-- Something that happened to a script. -/
inductive Event where
  /-- The script has no syntax error. -/
  | assembled (statements : Nat)
  /-- The script has a syntax error. -/
  | assemblyFailed (error : SyntaxError)
  /-- A script with a syntax error was to be run; the statement stands for the error. -/
  | notExecuted (statement : String)
  | started (statements : Nat) (outer : Bool)
  /-- A statement is about to be run. -/
  | dispatched (index line : Nat) (kind : StatementKind)
  /-- The database refused the query of a condition, which is false then. -/
  | conditionFailed (line : Nat) (error : SqlError)
  /-- The condition of a member of a chain was found true or not. -/
  | decided (line : Nat) (member : Directive) (taken : Bool)
  /-- A `debug` directive. -/
  | reported (line : Nat) (text : String)
  /-- While `cause` was being unwound a rollback failed, and is unwound in its place. -/
  | unwindingFailed (error cause : Failure)
  /-- A failure is handled by the handler on the line. -/
  | handled (error : Failure) (line : Nat)
  /-- A rollback failed after `cause` had been reported, which stands. -/
  | rollbackFailed (error cause : Failure)
  | failed (error : Failure) (statement : String)
  | finished (statements rowsAffected recovered : Nat)
deriving DecidableEq, Repr

namespace Event

/-- How much an entry of a log matters. -/
inductive Level where
  | debug
  | info
  | warn
  | error
deriving DecidableEq, Repr

def Level.name : Level → String
  | debug => "debug"
  | info => "info"
  | warn => "warn"
  | error => "error"

/-- A value in an entry of a log. -/
inductive Datum where
  | number (n : Nat)
  | flag (b : Bool)
  | text (s : String)
deriving DecidableEq, Repr

/-- An entry of a log. -/
structure Entry where
  level : Level
  /-- The part of the library that writes the entry. -/
  target : String
  message : String
  fields : List (String × Datum)
deriving DecidableEq, Repr

/-- The event as an entry of a log. -/
def entry : Event → Entry
  | assembled statements =>
    ⟨.debug, "assembler", "script assembled", [("statements", .number statements)]⟩
  | assemblyFailed error =>
    ⟨.debug, "assembler", "script assembly failed", [("error", .text error.message)]⟩
  | notExecuted statement =>
    ⟨.error, "executor", "script not executed: parse error", [("statement", .text statement)]⟩
  | started statements outer =>
    ⟨.info, "executor", "script run started",
      [("statements", .number statements), ("outer_transaction", .flag outer)]⟩
  | dispatched index line kind =>
    ⟨.debug, "executor", "dispatch",
      [("index", .number index), ("line", .number line), ("kind", .text kind.keyword)]⟩
  | conditionFailed line error =>
    ⟨.debug, "executor", "condition failed; treated as false",
      [("line", .number line), ("error", .text error.message)]⟩
  | decided line member taken =>
    ⟨.debug, "executor", member.keyword, [("line", .number line), ("taken", .flag taken)]⟩
  | reported line text => ⟨.info, "sqlscript::debug", text, [("line", .number line)]⟩
  | unwindingFailed error cause =>
    ⟨.warn, "executor", "rollback failed while unwinding",
      [("error", .text error.message), ("cause", .text cause.message)]⟩
  | handled error line =>
    ⟨.warn, "executor", "statement failed; continuing at catch",
      [("error", .text error.message), ("catch_line", .number line)]⟩
  | rollbackFailed error cause =>
    ⟨.warn, "executor", "rollback failed",
      [("error", .text error.message), ("cause", .text cause.message)]⟩
  | failed error statement =>
    ⟨.error, "executor", "script run failed",
      [("error", .text error.message), ("statement", .text statement)]⟩
  | finished statements rowsAffected recovered =>
    ⟨.info, "executor", "script run finished",
      [("statements", .number statements), ("rows_affected", .number rowsAffected),
        ("recovered", .number recovered)]⟩

/-- What there is to tell about the assembly of a program. -/
def ofAssembly (p : Program) : Event :=
  match p.error? with
  | none => .assembled p.size
  | some error => .assemblyFailed error

end Event

end SqlFlow
