import SqlFlow.Database.SqlError
import SqlFlow.Database.Value

/-!
# Connections

What a script needs of a database. A connection is a state that every call maps to an answer and a
next state, so whatever a database does is a value of `Connection σ` for some `σ`.
-/

namespace SqlFlow

/-- The calls of a transaction. -/
inductive TransactionCall where
  | begin
  | commit
  | rollback
deriving DecidableEq, Repr

def TransactionCall.name : TransactionCall → String
  | begin => "begin"
  | commit => "commit"
  | rollback => "rollback"

/-- The states of a connection, with what each call does to them. A call that fails may change the
state as well. -/
class Connection (σ : Type) where
  /-- Runs a statement. -/
  execute : String → σ → Except SqlError QueryResult × σ
  /-- Begins, commits or rolls back a transaction. -/
  transact : TransactionCall → σ → Except SqlError Unit × σ

end SqlFlow
