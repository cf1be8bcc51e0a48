import SqlFlow.Event

/-!
# The state of a run

What a run carries from statement to statement, and the calls it makes on its connection.

* `Scope`: a block that has been entered and not left.
* `Machine`: the connection, the scopes, and what the run has counted, collected and told so far.
* `Machine.call`: a call on the connection. Without a connection each call fails and none is made.
-/

namespace SqlFlow

/-- A block that a run is in. -/
inductive Scope where
  /-- A chain, and whether one of its bodies has been entered. -/
  | conditional (taken : Bool)
  /-- An attempt, the index of its handler, and whether the handler has been entered. A
  transactional attempt is a transaction until then. -/
  | attempt (transactional : Bool) (handler : Nat) (handling : Bool)
  /-- A transaction block. -/
  | transaction
deriving DecidableEq, Repr

/-- What a run counts. The counts have no bound: where they are kept in 64 bits, a run is one in which they
do not overflow. -/
structure Stats where
  /-- Statements run, directives included. -/
  statements : Nat := 0
  /-- SQL statements that the database accepted. -/
  sqlStatements : Nat := 0
  /-- Failures that were handled. -/
  recovered : Nat := 0
  /-- Rows changed by SQL statements: the sum of what the database reported. -/
  rowsAffected : Nat := 0
deriving DecidableEq, Repr

/-- The state of a run on a connection whose states are `σ`. -/
structure Machine (σ : Type) where
  connection : Option σ
  /-- The scopes, innermost first. -/
  scopes : List Scope := []
  stats : Stats := {}
  /-- The texts of the `debug` directives that were run. -/
  messages : Array String := #[]
  events : Array Event := #[]

namespace Machine

variable {σ : Type}

/-- Tells what happened. -/
def emit (m : Machine σ) (e : Event) : Machine σ := { m with events := m.events.push e }

/-- Enters a block. -/
def enter (m : Machine σ) (s : Scope) : Machine σ := { m with scopes := s :: m.scopes }

/-- Leaves the innermost block. -/
def leave (m : Machine σ) : Machine σ := { m with scopes := m.scopes.tail }

/-- Makes a call on the connection, whose errors are failures as `toFailure` says. -/
def call {α : Type} (m : Machine σ) (toFailure : SqlError → Failure)
    (f : σ → Except SqlError α × σ) : Except Failure α × Machine σ :=
  match m.connection with
  | none => (.error .noConnection, m)
  | some c =>
    let (answer, next) := f c
    (answer.mapError toFailure, { m with connection := some next })

variable [Connection σ]

/-- Runs a statement of the database. -/
def execute (m : Machine σ) (sql : String) : Except Failure QueryResult × Machine σ :=
  m.call .sql (Connection.execute sql)

/-- Begins, commits or rolls back a transaction. -/
def transact (m : Machine σ) (c : TransactionCall) : Except Failure Unit × Machine σ :=
  m.call (.transaction c) (Connection.transact c)

/-- Rolls back once `cause` has been reported, which a failure of the rollback does not change. -/
def rollbackAfter (m : Machine σ) (cause : Failure) : Machine σ :=
  match m.transact .rollback with
  | (.ok (), m) => m
  | (.error error, m) => m.emit (.rollbackFailed error cause)

/-- Commits. A transaction that cannot be committed is rolled back, and the failure is that of the
commit. -/
def commit (m : Machine σ) : Except Failure Unit × Machine σ :=
  match m.transact .commit with
  | (.ok (), m) => (.ok (), m)
  | (.error error, m) => (.error error, m.rollbackAfter error)

end Machine

end SqlFlow
