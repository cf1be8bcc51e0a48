import SqlFlow.Database.Connection
import SqlFlow.Text.Substring

/-!
# Rehearsals

A connection to no database. It writes down every call it is asked for and answers from what it has
been told beforehand, so that a script can be tried out, and every failure of a database with it.

* `Rehearsal`: the calls so far, the answers to give, and how many transactions are open.
* `Schedule`: answers for particular calls by their number, which come before all others.
* `Rehearsal.executed` and `Rehearsal.count`: what was called.

A statement is recognised by a fragment that occurs in it; the empty fragment occurs in every one.
Failures are looked up before results, each in the order they were told in, and a statement that
nothing was told about changes one row.
-/

namespace SqlFlow

/-- A call that was made. -/
inductive Call where
  | execute (sql : String)
  | transact (call : TransactionCall)
deriving DecidableEq, Repr

/-- Answers by number: the first call of a kind has number one. -/
abbrev Schedule (α : Type) := List (Nat × Except SqlError α)

/-- The answer to the call with number `n`, if there is one. -/
def Schedule.answer? {α : Type} (s : Schedule α) (n : Nat) : Option (Except SqlError α) :=
  (s.find? fun entry => entry.1 == n).map Prod.snd

/-- A connection that answers from what it has been told. -/
structure Rehearsal where
  /-- Every call, in order. -/
  calls : Array Call := #[]
  /-- Results of the statements in which a fragment occurs. -/
  results : List (String × QueryResult) := []
  /-- Failures of the statements in which a fragment occurs. -/
  failures : List (String × SqlError) := []
  /-- How the calls of each kind fail, as long as they do. -/
  refusal : TransactionCall → Option SqlError := fun _ => none
  /-- Answers to particular statements. -/
  statements : Schedule QueryResult := []
  /-- Answers to particular calls of each kind. -/
  transactions : TransactionCall → Schedule Unit := fun _ => []
  /-- How many transactions are open, which is never more than how many calls there were. -/
  depth : Nat := 0

namespace Rehearsal

/-- What was told about a statement, under the first fragment that occurs in it. -/
def lookUp? {α : Type} (told : List (String × α)) (sql : String) : Option α :=
  (told.find? fun entry => Text.occursIn entry.1.toList sql.toList).map Prod.snd

/-- The texts of the statements, in order. -/
def executed (r : Rehearsal) : List String :=
  r.calls.toList.filterMap fun
    | .execute sql => some sql
    | .transact _ => none

/-- How many times a call was made. -/
def count (r : Rehearsal) (call : Call) : Nat := r.calls.count call

/-- The answer to a statement that has no number of its own. -/
def respond (r : Rehearsal) (sql : String) : Except SqlError QueryResult :=
  match lookUp? r.failures sql with
  | some error => .error error
  | none => .ok ((lookUp? r.results sql).getD (.affected 1))

/-- The number of open transactions after a call that succeeded. Commits and rollbacks that nothing
was begun for leave it at zero. -/
def depthAfter (depth : Nat) : TransactionCall → Nat
  | .begin => depth + 1
  | .commit | .rollback => depth - 1

/-- Runs a statement: writes it down and answers. -/
def execute (sql : String) (r : Rehearsal) : Except SqlError QueryResult × Rehearsal :=
  let number := r.executed.length + 1
  ((r.statements.answer? number).getD (r.respond sql),
    { r with calls := r.calls.push (.execute sql) })

/-- Makes a call of a transaction: writes it down, and counts it if it succeeds. -/
def transact (call : TransactionCall) (r : Rehearsal) : Except SqlError Unit × Rehearsal :=
  let number := r.count (.transact call) + 1
  let usual : Except SqlError Unit := match r.refusal call with
    | some error => .error error
    | none => .ok ()
  let written := { r with calls := r.calls.push (.transact call) }
  match ((r.transactions call).answer? number).getD usual with
  | .error error => (.error error, written)
  | .ok () => (.ok (), { written with depth := depthAfter r.depth call })

instance : Connection Rehearsal where
  execute := execute
  transact := transact

/-! ## Telling a rehearsal what to answer -/

/-- Statements in which `part` occurs have this result. -/
def returning (r : Rehearsal) (part : String) (result : QueryResult) : Rehearsal :=
  { r with results := r.results ++ [(part, result)] }

/-- Statements in which `part` occurs fail like this. -/
def failingWith (r : Rehearsal) (part : String) (error : SqlError) : Rehearsal :=
  { r with failures := r.failures ++ [(part, error)] }

/-- Statements in which `part` occurs fail as those do that name something undefined. -/
def failing (r : Rehearsal) (part : String) : Rehearsal :=
  r.failingWith part (.statement (-204) s!"{part} failed")

/-- Calls of this kind fail like this, or no longer. -/
def refusing (r : Rehearsal) (call : TransactionCall) (error : Option SqlError) : Rehearsal :=
  { r with refusal := fun c => if c = call then error else r.refusal c }

end Rehearsal

end SqlFlow
