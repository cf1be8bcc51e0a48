import SqlFlow.Fragment.Split
import SqlFlow.Program.Assembly
import SqlFlow.Run
import SqlFlow.Source.Input

/-!
# Scripts

A script is assembled once and run as often as wanted. It keeps the report of its last run.

* `Script.ofSource`, `Script.ofSourceIn`, `Script.detached`, `Script.ofInput`, `Script.ofInputIn`:
  the ways to come by a script. Only a dialect that is given is validated, and it is before anything
  is read.
* `Script.exec`: runs the script, says whether that was a success, and replaces its report and the state of
  its connection.
-/

namespace SqlFlow

/-- A script and its connection, if it has one. -/
structure Script (σ : Type) where
  dialect : Dialect
  program : Program
  connection : Option σ
  /-- The report of the last run. -/
  report : Report := {}

namespace Script

variable {σ : Type}

/-- The program of a source text. -/
def compile (d : Dialect) (source : String) : Program :=
  Program.assemble d (Fragment.split d source)

/-- The script of a source text in a dialect that is not looked at. -/
def build (d : Dialect) (source : String) (connection : Option σ) : Script σ :=
  { dialect := d, program := compile d source, connection }

/-- A script in the default dialect. -/
def ofSource (source : String) (connection : σ) : Script σ := build {} source (some connection)

/-- A script in a dialect, which has to be valid. -/
def ofSourceIn (d : Dialect) (source : String) (connection : σ) : Except ScriptError (Script σ) :=
  match d.validate with
  | .error error => .error (.dialect error)
  | .ok d => .ok (build d source (some connection))

/-- A script in the default dialect that has nothing to run on. -/
def detached (source : String) : Script σ := build {} source none

/-- A script that has to be read, in a dialect, which has to be valid. -/
def ofInputIn (d : Dialect) (input : Source.Input) (connection : σ) :
    Except ScriptError (Script σ) :=
  match d.validate with
  | .error error => .error (.dialect error)
  | .ok d =>
    match input.text with
    | .error fault => .error (.unreadable fault)
    | .ok source => .ok (build d source (some connection))

/-- A script in the default dialect that has to be read. -/
def ofInput (input : Source.Input) (connection : σ) : Except ScriptError (Script σ) :=
  ofInputIn {} input connection

/-- What comes of running a script. -/
structure Execution (σ : Type) where
  /-- Whether the run was a success. -/
  succeeded : Bool
  /-- The script with the report of the run. -/
  script : Script σ
  /-- What the run told. -/
  events : Array Event

/-- Runs the script, inside a transaction of its own if `outer` says so. -/
def exec [Connection σ] (s : Script σ) (outer : Bool) : Execution σ :=
  let run := s.program.run s.dialect.marker outer s.connection
  { succeeded := run.report.outcome == .success
    script := { s with connection := run.connection, report := run.report }
    events := run.events }

end Script

end SqlFlow
