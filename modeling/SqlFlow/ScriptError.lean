import SqlFlow.Database.Connection
import SqlFlow.Dialect
import SqlFlow.SyntaxError

/-!
# Script errors

Everything that can keep a script from being run to its end.

* `Failure`: what can go wrong while a script runs. This is what `try` handles.
* `ScriptError`: a failure that was not handled, or a reason why there was nothing to run.

For each there is a `message`; a `code` and a `help` text where programs and people are given one;
and the error underneath, if it stands for another one.
-/

namespace SqlFlow

/-- What can go wrong while a script runs. -/
inductive Failure where
  /-- The database refused a statement. -/
  | sql (error : SqlError)
  /-- The database refused a call of a transaction. -/
  | transaction (call : TransactionCall) (error : SqlError)
  /-- There is no connection to make a call on. -/
  | noConnection
deriving DecidableEq, Repr

def Failure.message : Failure → String
  | sql error => s!"SQL error: {error.message}"
  | transaction call error => s!"{call.name} failed: {error.message}"
  | noConnection => "no database connection"

/-- Why a script did not run to its end. -/
inductive ScriptError where
  /-- The script is at fault as a text. -/
  | syntaxError (error : SyntaxError)
  /-- A failure that nothing handled. -/
  | failed (failure : Failure)
  /-- The dialect was refused. -/
  | dialect (error : DialectError)
  /-- The script could not be read. -/
  | unreadable (fault : ReadFault)
deriving DecidableEq, Repr

namespace ScriptError

def message : ScriptError → String
  | syntaxError error => s!"parse error: {error.message}"
  | failed failure => failure.message
  | dialect error => s!"configuration error: {error.message}"
  | unreadable fault => s!"IO error: {fault.message}"

/-- The error's name for programs. A syntax error brings its own. -/
def code? : ScriptError → Option String
  | syntaxError error => some error.code
  | failed (.transaction ..) => some "sqlscript::transaction"
  | failed .noConnection => some "sqlscript::no_connection"
  | failed (.sql _) | dialect _ | unreadable _ => none

/-- Advice on how to go on. A syntax error brings its own. -/
def help? : ScriptError → Option String
  | syntaxError error => error.help?
  | failed .noConnection => some "construct the script with a connection before calling exec"
  | failed (.sql _) | failed (.transaction ..) | dialect _ | unreadable _ => none

/-- Whether the text of the script is at fault. -/
def isSyntax : ScriptError → Bool
  | syntaxError _ => true
  | _ => false

/-- The report of the database, if the error comes from there. -/
def sqlError? : ScriptError → Option SqlError
  | failed (.sql error) | failed (.transaction _ error) => some error
  | _ => none

/-- The message of the error underneath. -/
def cause? : ScriptError → Option String
  | syntaxError error => some error.message
  | failed (.sql error) | failed (.transaction _ error) => some error.message
  | failed .noConnection => none
  | dialect error => some error.message
  | unreadable fault => some fault.message

end ScriptError

end SqlFlow
