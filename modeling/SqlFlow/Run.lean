import SqlFlow.Run.Step

/-!
# Running a program

* `Report`: what a run leaves behind for whoever asked for it.
* `Machine.dispatch`: one statement and, if it fails, the way to its handler.
* `Machine.runFrom`: statement after statement, until the end of the program or a failure that
  nothing handles.
* `Program.run`: a whole run, if wanted inside a transaction of its own.

Control never goes back in a program that has been assembled: every target lies behind the statement
that has it. As many statements as the program has are therefore fuel enough for every run.
-/

namespace SqlFlow

/-- How a run ended. -/
inductive Outcome where
  /-- There was no run. -/
  | notRun
  | success
  /-- The program has a syntax error, and nothing was done. -/
  | syntaxError
  /-- A failure was not handled. -/
  | runtimeError
deriving DecidableEq, Repr

/-- What a run leaves behind. -/
structure Report where
  outcome : Outcome := .notRun
  /-- Why the run was not a success. -/
  error? : Option ScriptError := none
  /-- The statement that failed. Empty if none did, also when what failed was the transaction around
  the run. -/
  statement : String := ""
  stats : Stats := {}
  /-- The texts of the `debug` directives that were run, in order. -/
  messages : Array String := #[]
deriving DecidableEq, Repr

/-- A run that is over. -/
structure Run (σ : Type) where
  report : Report
  /-- The connection as the run left it. -/
  connection : Option σ
  events : Array Event

/-- The statement as a report shows it: a directive behind the marker. -/
def Statement.describe (marker : String) (s : Statement) : String :=
  match s.kind with
  | .sql | .invalid => s.text
  | .directive d =>
    if s.text.isEmpty then marker ++ d.keyword else marker ++ d.keyword ++ " " ++ s.text

namespace Machine

variable {σ : Type}

/-- The run that ends here. -/
def finish (m : Machine σ) (outcome : Outcome) (error? : Option ScriptError) (statement : String) :
    Run σ where
  report := { outcome, error?, statement, stats := m.stats, messages := m.messages }
  connection := m.connection
  events := m.events

/-- The run that ends here with a failure in a statement. -/
def halt (m : Machine σ) (failure : Failure) (statement : String) : Run σ :=
  (m.emit (.failed failure statement)).finish .runtimeError (some (.failed failure)) statement

/-- The run that ends here as a success. -/
def succeed (m : Machine σ) : Run σ :=
  (m.emit (.finished m.stats.statements m.stats.rowsAffected m.stats.recovered)).finish .success
    none ""

/-- Counts a statement as run. -/
def countStatement (m : Machine σ) : Machine σ :=
  { m with stats := { m.stats with statements := m.stats.statements + 1 } }

/-- Counts a failure as handled. -/
def countRecovered (m : Machine σ) : Machine σ :=
  { m with stats := { m.stats with recovered := m.stats.recovered + 1 } }

variable [Connection σ]

/-- Runs the statement with index `pc`, and unwinds the scopes if it fails. -/
def dispatch (p : Program) (m : Machine σ) (pc : Nat) (s : Statement) :
    Except Failure Nat × Machine σ :=
  match m.countStatement.step p pc s with
  | (.ok next, m) => (.ok next, m)
  | (.error failure, m) =>
    match unwind p failure m m.scopes with
    | (.ok handler, m) => (.ok handler, m.countRecovered)
    | (.error failure, m) => (.error failure, m)

/-- Runs the program from index `pc` on, for at most `fuel` statements. A failure that nothing
handles comes with the statement that it arose in. -/
def runFrom (p : Program) : (fuel : Nat) → Machine σ → (pc : Nat) →
    Except (Failure × Statement) Unit × Machine σ
  | 0, m, _ => (.ok (), m)
  | fuel + 1, m, pc =>
    match p.get? pc with
    | none => (.ok (), m)
    | some s =>
      match m.dispatch p pc s with
      | (.ok next, m) => runFrom p fuel m next
      | (.error failure, m) => (.error (failure, s), m)

/-- Runs the whole program. -/
def runAll (p : Program) (m : Machine σ) : Except (Failure × Statement) Unit × Machine σ :=
  runFrom p p.size m 0

/-- A run on its own: what the statements did to the database stays. -/
def runBare (p : Program) (marker : String) (m : Machine σ) : Run σ :=
  match m.runAll p with
  | (.ok (), m) => m.succeed
  | (.error (failure, s), m) => m.halt failure (s.describe marker)

/-- A run inside a transaction, which is committed at the end, and rolled back when a failure is not
handled. If the transaction cannot be begun nothing is run; if it cannot be committed the run has
failed. -/
def runEnclosed (p : Program) (marker : String) (m : Machine σ) : Run σ :=
  match m.transact .begin with
  | (.error failure, m) => m.halt failure ""
  | (.ok (), m) =>
    match m.runAll p with
    | (.error (failure, s), m) => (m.rollbackAfter failure).halt failure (s.describe marker)
    | (.ok (), m) =>
      match m.commit with
      | (.ok (), m) => m.succeed
      | (.error failure, m) => m.halt failure ""

end Machine

/-- The run that a program with a syntax error comes to: none. -/
def Program.refuseRun {σ : Type} (p : Program) (connection : Option σ) : Run σ :=
  let statement := (p.statements.back?.map Statement.text).getD ""
  let m : Machine σ := { connection }
  (m.emit (.notExecuted statement)).finish .syntaxError (p.error?.map .syntaxError) statement

/-- Runs a program, inside a transaction of its own if `outer` says so. The marker only serves to
show a directive that failed. -/
def Program.run {σ : Type} [Connection σ] (p : Program) (marker : String) (outer : Bool)
    (connection : Option σ) : Run σ :=
  if p.executable then
    let m := Machine.emit { connection } (.started p.size outer)
    if outer then m.runEnclosed p marker else m.runBare p marker
  else p.refuseRun connection

end SqlFlow
