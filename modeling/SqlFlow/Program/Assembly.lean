import SqlFlow.Program
import SqlFlow.Program.Nesting

/-!
# Assembling programs

Turns the fragments of a script into a program, in one pass from the left that stops at the first
fragment at fault.

* `Assembly`: the statements so far, and the blocks that are open behind them.
* `Assembly.add`: one more fragment.
* `Program.assemble`: all of them. A program with an error ends in the one statement that stands
  for it; blocks left open are an error of the innermost one, reported at the directive that opened
  it.
-/

namespace SqlFlow

/-- The state of the pass. -/
structure Assembly where
  statements : Array Statement := #[]
  blocks : Nesting := []

namespace Assembly

/-- The program that ends with an error, whose place is written as `raw` in the script. -/
def refuse (a : Assembly) (error : SyntaxError) (raw : String) : Program where
  statements := a.statements.push { kind := .invalid, text := raw, line := error.line }
  error? := some error

/-- Makes the next statement the target of an earlier one. -/
def link (a : Assembly) : Option Nat → Assembly
  | none => a
  | some i =>
    let here := a.statements.size
    { a with statements := a.statements.modify i ({ · with target := some here }) }

/-- Appends a statement that branches nowhere yet. -/
def append (a : Assembly) (kind : StatementKind) (f : Fragment) : Assembly :=
  { a with statements := a.statements.push { kind, text := f.text, line := f.line } }

/-- The pass after one more fragment, or the program that ends there with an error. -/
def add (d : Dialect) (a : Assembly) (f : Fragment) : Except Program Assembly :=
  match f.kind with
  | .fault error => .error (a.refuse error f.raw)
  | .sql => .ok (a.append .sql f)
  | .directive x =>
    let admission := a.blocks.accept d ⟨x, f.line, f.raw⟩ f.text a.statements.size
    let linked := a.link admission.links
    match admission.result with
    | .error error => .error (linked.refuse error f.raw)
    | .ok blocks => .ok { linked.append (.directive x) f with blocks }

/-- The program of a pass that has read every fragment. A block that is open knows its opener, which could
also be found by going back from its present member along the targets
(`Assembly.Behind.finish_eq_refuse_opener`). -/
def finish (a : Assembly) : Program :=
  match a.blocks with
  | [] => { statements := a.statements, error? := none }
  | block :: _ =>
    a.refuse (.unclosed block.opener.line block.opener.directive.keyword) block.opener.raw

/-- The program of a pass that has `fragments` still to read. -/
def run (d : Dialect) (a : Assembly) : List Fragment → Program
  | [] => a.finish
  | f :: fragments =>
    match a.add d f with
    | .error program => program
    | .ok a => a.run d fragments

end Assembly

/-- The program of a script given by its fragments. -/
def Program.assemble (d : Dialect) (fragments : List Fragment) : Program :=
  Assembly.run d {} fragments

end SqlFlow
