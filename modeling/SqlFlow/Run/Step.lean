import SqlFlow.Literal
import SqlFlow.Run.Machine

/-!
# Running one statement

* `Machine.evaluate`: the truth of a condition.
* `Machine.step`: one statement, which yields the index of the statement to go on with, or a failure.
* `Machine.unwind`: what becomes of a failure. Scopes are left one by one, transactions among them
  rolled back, until an attempt is found whose handler has not been entered; if its handler can be
  entered the run goes on there.
-/

namespace SqlFlow.Machine

variable {σ : Type} [Connection σ]

/-- The truth of the condition on a line. A literal asks nothing of the database. Any other
condition is run as a statement: its result is as true as `QueryResult.truthy` says, and it is false
if the database refuses it. -/
def evaluate (m : Machine σ) (line : Nat) (condition : String) : Except Failure Bool × Machine σ :=
  match Literal.truth? condition with
  | some b => (.ok b, m)
  | none =>
    match m.execute condition with
    | (.ok result, m) => (.ok result.truthy, m)
    | (.error (.sql error), m) => (.ok false, m.emit (.conditionFailed line error))
    | (.error failure, m) => (.error failure, m)

/-- Decides whether the body of a member of a chain is entered: control goes on with the next
statement if it is, and to the target if not. What becomes of the scopes then is `enter`. -/
def branch (m : Machine σ) (member : Directive) (s : Statement) (pc target : Nat)
    (enter : Bool → Machine σ → Machine σ) : Except Failure Nat × Machine σ :=
  match m.evaluate s.line s.text with
  | (.error failure, m) => (.error failure, m)
  | (.ok taken, m) =>
    (.ok (if taken then pc + 1 else target), enter taken (m.emit (.decided s.line member taken)))

/-- Notes of the innermost chain whether one of its bodies has been entered. -/
def note (m : Machine σ) (taken : Bool) : Machine σ :=
  match m.scopes with
  | .conditional _ :: outer => { m with scopes := .conditional taken :: outer }
  | _ => m

/-- What comes of a call, with `next` as the statement to go on with if it succeeded. -/
def goOn (next : Nat) (after : Machine σ → Machine σ) :
    Except Failure Unit × Machine σ → Except Failure Nat × Machine σ
  | (.ok (), m) => (.ok next, after m)
  | (.error failure, m) => (.error failure, m)

/-- Runs a directive. The scope it finds innermost is the one of its own block, in a program that
has been assembled; a scope of another kind is passed over. -/
def direct (m : Machine σ) (d : Directive) (s : Statement) (pc target : Nat) :
    Except Failure Nat × Machine σ :=
  let next := pc + 1
  match d with
  | .ifThen => m.branch d s pc target fun taken m => m.enter (.conditional taken)
  | .elseIf =>
    match m.scopes with
    | .conditional true :: _ => (.ok target, m)
    | _ => m.branch d s pc target fun taken m => m.note taken
  | .otherwise =>
    match m.scopes with
    | .conditional true :: _ => (.ok target, m)
    | _ => (.ok next, m.note true)
  | .endIf =>
    match m.scopes with
    | .conditional _ :: _ => (.ok next, m.leave)
    | _ => (.ok next, m)
  | .attempt => (.ok next, m.enter (.attempt false target false))
  | .attemptTransaction => goOn next (·.enter (.attempt true target false)) (m.transact .begin)
  | .handler =>
    match m.scopes with
    | .attempt _ _ false :: _ => (.ok target, m)
    | _ => (.ok next, m)
  | .endAttempt =>
    match m.scopes with
    | .attempt true _ false :: _ => goOn next id m.leave.commit
    | _ => (.ok next, m.leave)
  | .beginTransaction => goOn next (·.enter .transaction) (m.transact .begin)
  | .endTransaction =>
    match m.scopes with
    | .transaction :: _ => goOn next id m.leave.commit
    | _ => goOn next id m.commit
  | .debug => (.ok next, { m.emit (.reported s.line s.text) with messages := m.messages.push s.text })

/-- Runs the SQL statement and counts it if the database accepts it. -/
def query (m : Machine σ) (sql : String) : Except Failure Unit × Machine σ :=
  match m.execute sql with
  | (.error failure, m) => (.error failure, m)
  | (.ok result, m) =>
    (.ok (), { m with stats := { m.stats with
      sqlStatements := m.stats.sqlStatements + 1
      rowsAffected := m.stats.rowsAffected + result.rowsAffected } })

/-- Runs the statement with index `pc`. -/
def step (p : Program) (m : Machine σ) (pc : Nat) (s : Statement) :
    Except Failure Nat × Machine σ :=
  let m := m.emit (.dispatched pc s.line s.kind)
  match s.kind with
  | .sql => goOn (pc + 1) id (m.query s.text)
  | .directive d => m.direct d s pc (s.target.getD p.size)
  -- A program with such a statement is never run; it would be passed over.
  | .invalid => (.ok (pc + 1), m)

/-- Enters the handler of the innermost attempt in `scopes`. -/
def handle (p : Program) (m : Machine σ) (failure : Failure) (transactional : Bool)
    (handler : Nat) (outer : List Scope) : Except Failure Nat × Machine σ :=
  let line := ((p.get? handler).map Statement.line).getD 0
  let m := { m with scopes := .attempt transactional handler true :: outer }
  (.ok handler, m.emit (.handled failure line))

/-- Leaves `scopes`, innermost first, because of a failure: yields the index of the handler that
takes it, or the failure that is left when none does. A rollback that fails on the way is unwound in
place of the failure it was made for, and an attempt that cannot be rolled back handles nothing. -/
def unwind (p : Program) (failure : Failure) (m : Machine σ) :
    (scopes : List Scope) → Except Failure Nat × Machine σ
  | [] => (.error failure, { m with scopes := [] })
  | .conditional _ :: outer => unwind p failure m outer
  | .attempt _ _ true :: outer => unwind p failure m outer
  | .attempt false handler false :: outer => m.handle p failure false handler outer
  | .attempt true handler false :: outer =>
    match m.transact .rollback with
    | (.ok (), m) => m.handle p failure true handler outer
    | (.error error, m) => unwind p error (m.emit (.unwindingFailed error failure)) outer
  | .transaction :: outer =>
    match m.transact .rollback with
    | (.ok (), m) => unwind p failure m outer
    | (.error error, m) => unwind p error (m.emit (.unwindingFailed error failure)) outer

end SqlFlow.Machine
