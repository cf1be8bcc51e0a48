import SqlFlow.Literal
import SqlFlow.Proofs.Tree
import SqlFlow.Run

/-!
# What a block tree does

An interpreter of block trees by structural recursion: a body is run by running its trees, one after
the other until one fails. It knows no indices, no targets and no scopes.

* `Store`: what a run changes: the connection, the counts, the messages.
* `Fault`: a failure with the statement it is blamed on.
* `Tree.exec`: runs a tree. A chain runs the body of the first member whose condition is true, and
  passes over its later members; an attempt runs its handler when its body has failed and, if it is
  transactional, the rollback has not; a transaction rolls back when its body has failed. What is
  passed over is counted as a statement.
* `Tree.interpret`: runs the trees of a script, inside a transaction of its own if wanted.
-/

namespace SqlFlow

/-- What a run changes, apart from its place in the script. -/
structure Store (σ : Type) where
  connection : Option σ
  stats : Stats := {}
  messages : Array String := #[]

/-- A failure and the statement that a report blames for it. -/
structure Fault where
  failure : Failure
  statement : String

namespace Store

variable {σ : Type}

/-- A call on the connection. Without one the call fails and is not made. -/
def ask {α : Type} (s : Store σ) (toFailure : SqlError → Failure)
    (f : σ → Except SqlError α × σ) : Except Failure α × Store σ :=
  match s.connection with
  | none => (.error .noConnection, s)
  | some c => ((f c).1.mapError toFailure, { s with connection := some (f c).2 })

/-- Counts a statement. -/
def tick (s : Store σ) : Store σ :=
  { s with stats := { s.stats with statements := s.stats.statements + 1 } }

/-- Counts a failure that is handled. -/
def recover (s : Store σ) : Store σ :=
  { s with stats := { s.stats with recovered := s.stats.recovered + 1 } }

/-- Keeps the text of a `debug` directive. -/
def note (s : Store σ) (text : String) : Store σ := { s with messages := s.messages.push text }

variable [Connection σ]

def transact (s : Store σ) (call : TransactionCall) : Except Failure Unit × Store σ :=
  s.ask (.transaction call) (Connection.transact call)

def execute (s : Store σ) (sql : String) : Except Failure QueryResult × Store σ :=
  s.ask .sql (Connection.execute sql)

/-- Runs a SQL statement, and counts it with its rows if the database accepts it. -/
def query (s : Store σ) (sql : String) : Except Failure Unit × Store σ :=
  match s.execute sql with
  | (.error failure, s) => (.error failure, s)
  | (.ok result, s) =>
    (.ok (), { s with stats := { s.stats with
      sqlStatements := s.stats.sqlStatements + 1
      rowsAffected := s.stats.rowsAffected + result.rowsAffected } })

/-- The truth of a condition: that of a literal, or else that of the answer to a query. A query that
the database refuses is false. -/
def evaluate (s : Store σ) (condition : String) : Except Failure Bool × Store σ :=
  match Literal.truth? condition with
  | some b => (.ok b, s)
  | none =>
    match s.execute condition with
    | (.ok result, s) => (.ok result.truthy, s)
    | (.error (.sql _), s) => (.ok false, s)
    | (.error failure, s) => (.error failure, s)

/-- Commits, and rolls back if that fails. The failure is that of the commit. -/
def commit (s : Store σ) : Except Failure Unit × Store σ :=
  match s.transact .commit with
  | (.ok (), s) => (.ok (), s)
  | (.error failure, s) => (.error failure, (s.transact .rollback).2)

/-- Rolls back because of a fault. If that fails its failure takes the place of the fault's. -/
def abandon (s : Store σ) (fault : Fault) : Fault × Store σ :=
  match s.transact .rollback with
  | (.ok (), s) => (fault, s)
  | (.error failure, s) => (⟨failure, fault.statement⟩, s)

end Store

/-- A directive as a report shows it. -/
def Line.shown (l : Line) (marker : String) (d : Directive) : String :=
  if l.text.isEmpty then marker ++ d.keyword else marker ++ d.keyword ++ " " ++ l.text

/-- Blames a statement for a failure. -/
def blame {σ : Type} (statement : String) :
    Except Failure Unit × Store σ → Except Fault Unit × Store σ
  | (.ok (), s) => (.ok (), s)
  | (.error failure, s) => (.error ⟨failure, statement⟩, s)

/-- Goes on if nothing has failed. -/
def andThen {σ : Type} (r : Except Fault Unit × Store σ)
    (next : Store σ → Except Fault Unit × Store σ) : Except Fault Unit × Store σ :=
  match r with
  | (.ok (), s) => next s
  | (.error fault, s) => (.error fault, s)

/-- Goes one way or the other by a condition. A statement is counted for it, and blamed if the
condition cannot be asked. -/
def choose {σ : Type} [Connection σ] (condition statement : String)
    (yes no : Store σ → Except Fault Unit × Store σ) (s : Store σ) : Except Fault Unit × Store σ :=
  match s.tick.evaluate condition with
  | (.error failure, s) => (.error ⟨failure, statement⟩, s)
  | (.ok true, s) => yes s
  | (.ok false, s) => no s

/-- What a chain does once none of its later members will be entered: it passes over them. -/
def Branch.skip {σ : Type} : Branch → Store σ → Store σ
  | .done _, s => s.tick
  | .otherwise _ _ _, s => s.tick.tick
  | .elseIf _ _ rest, s => rest.skip s.tick

theorem Branch.connection_skip {σ : Type} :
    (b : Branch) → (s : Store σ) → (b.skip s).connection = s.connection
  | .done _, _ => rfl
  | .otherwise _ _ _, _ => rfl
  | .elseIf _ _ rest, s => rest.connection_skip s.tick

mutual

variable {σ : Type} [Connection σ]

/-- Runs a tree. The marker only serves to show a directive that is to blame. -/
def Tree.exec (marker : String) : Tree → Store σ → Except Fault Unit × Store σ
  | .sql l, s => blame l.text (s.tick.query l.text)
  | .debug l, s => (.ok (), s.tick.note l.text)
  | .chain opener body rest, s =>
    choose opener.text (opener.shown marker .ifThen)
      (fun s => andThen (Tree.execAll marker body s) fun s => (.ok (), rest.skip s))
      (rest.exec marker) s
  | .attempt false _ body _ handler _, s =>
    match Tree.execAll marker body s.tick with
    -- the line of the handler and that of the end are passed over
    | (.ok (), s) => (.ok (), s.tick.tick)
    | (.error _, s) =>
      andThen (Tree.execAll marker handler s.recover.tick) fun s => (.ok (), s.tick)
  | .attempt true opener body _ handler closer, s =>
    andThen (blame (opener.shown marker .attemptTransaction) (s.tick.transact .begin)) fun s =>
      match Tree.execAll marker body s with
      | (.ok (), s) => blame (closer.shown marker .endAttempt) s.tick.tick.commit
      | (.error fault, s) =>
        match s.transact .rollback with
        | (.error failure, s) => (.error ⟨failure, fault.statement⟩, s)
        | (.ok (), s) =>
          andThen (Tree.execAll marker handler s.recover.tick) fun s => (.ok (), s.tick)
  | .transaction opener body closer, s =>
    andThen (blame (opener.shown marker .beginTransaction) (s.tick.transact .begin)) fun s =>
      match Tree.execAll marker body s with
      | (.ok (), s) => blame (closer.shown marker .endTransaction) s.tick.commit
      | (.error fault, s) => (.error (s.abandon fault).1, (s.abandon fault).2)

/-- Runs trees up to the first that fails. -/
def Tree.execAll (marker : String) : List Tree → Store σ → Except Fault Unit × Store σ
  | [], s => (.ok (), s)
  | t :: ts, s => andThen (t.exec marker s) (Tree.execAll marker ts)

/-- Goes on in a chain in which no condition has been true. -/
def Branch.exec (marker : String) : Branch → Store σ → Except Fault Unit × Store σ
  | .done _, s => (.ok (), s.tick)
  | .otherwise _ body _, s =>
    andThen (Tree.execAll marker body s.tick) fun s => (.ok (), s.tick)
  | .elseIf opener body rest, s =>
    choose opener.text (opener.shown marker .elseIf)
      (fun s => andThen (Tree.execAll marker body s) fun s => (.ok (), rest.skip s))
      (rest.exec marker) s

end

namespace Store

variable {σ : Type}

/-- The report and the connection of a run that ends here. -/
def finish (s : Store σ) (outcome : Outcome) (error? : Option ScriptError) (statement : String) :
    Report × Option σ :=
  ({ outcome, error?, statement, stats := s.stats, messages := s.messages }, s.connection)

def succeed (s : Store σ) : Report × Option σ := s.finish .success none ""

def halt (s : Store σ) (fault : Fault) : Report × Option σ :=
  s.finish .runtimeError (some (.failed fault.failure)) fault.statement

end Store

section

variable {σ : Type} [Connection σ]

/-- Runs the trees of a script. -/
def Tree.interpretBare (marker : String) (ts : List Tree) (s : Store σ) : Report × Option σ :=
  match Tree.execAll marker ts s with
  | (.ok (), s) => s.succeed
  | (.error fault, s) => s.halt fault

/-- Runs the trees of a script inside a transaction. When they fail it is rolled back, and the
failure stays what it was even if that fails. What begins and commits the transaction is no statement
that could be blamed. -/
def Tree.interpretEnclosed (marker : String) (ts : List Tree) (s : Store σ) : Report × Option σ :=
  match s.transact .begin with
  | (.error failure, s) => s.halt ⟨failure, ""⟩
  | (.ok (), s) =>
    match Tree.execAll marker ts s with
    | (.error fault, s) => (s.transact .rollback).2.halt fault
    | (.ok (), s) =>
      match s.commit with
      | (.ok (), s) => s.succeed
      | (.error failure, s) => s.halt ⟨failure, ""⟩

/-- Runs a script, inside a transaction of its own if wanted. -/
def Tree.interpret (marker : String) (outer : Bool) (ts : List Tree) (connection : Option σ) :
    Report × Option σ :=
  if outer then Tree.interpretEnclosed marker ts { connection }
  else Tree.interpretBare marker ts { connection }

end

end SqlFlow
