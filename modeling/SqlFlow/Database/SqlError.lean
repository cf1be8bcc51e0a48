/-!
# Database errors

What a database reports when it refuses a call.
-/

namespace SqlFlow

/-- The area a database error belongs to. -/
inductive SqlErrorKind where
  /-- The connection cannot be used. -/
  | connection
  /-- A statement was refused. -/
  | statement
  /-- A transaction could not be begun, committed or rolled back. -/
  | transaction
  /-- The database gave no area. -/
  | unknown
deriving DecidableEq, Repr

def SqlErrorKind.name : SqlErrorKind → String
  | connection => "connection"
  | statement => "statement"
  | transaction => "transaction"
  | unknown => "unknown"

/-- An error report of a database. -/
structure SqlError where
  kind : SqlErrorKind
  /-- The database's own number for the error; errors have negative ones. -/
  code : Int
  /-- The five characters of the standard classification; `HY000` says nothing in particular. -/
  state : String := "HY000"
  text : String
deriving DecidableEq, Repr

namespace SqlError

/-- A refused statement. -/
def statement (code : Int) (text : String) : SqlError := { kind := .statement, code, text }

/-- A transaction call that failed. -/
def transaction (text : String) : SqlError := { kind := .transaction, code := -1, text }

/-- A connection that failed. -/
def connection (text : String) : SqlError := { kind := .connection, code := -30081, text }

def message (e : SqlError) : String :=
  s!"{e.kind.name} error (SQLCODE {e.code}, SQLSTATE {e.state}): {e.text}"

end SqlError

end SqlFlow
