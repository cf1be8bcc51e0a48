import SqlFlow.Dialect
import SqlFlow.Fragment

/-!
# Nesting of blocks

The discipline that the directives of a script have to keep, as a stack of the blocks that are open
at a point of it.

* `Block`: an open block: a chain of conditional bodies, an attempt with its handler, or a
  transaction. Each knows the directive that opened it.
* `Nesting.accept`: what a directive makes of the open blocks, or why it may not stand where it does,
  and which earlier statement its place is the target of.

A directive answers to the innermost block alone. The members of a chain or of an attempt are linked
each to the next: `if` to `elseif` to `else` to `endif`, and `try` to `catch` to `endtry`.
-/

namespace SqlFlow

/-- The directive that opened a block. -/
structure Opener where
  directive : Directive
  line : Nat
  /-- The directive as it is written. -/
  raw : String
deriving DecidableEq, Repr

/-- A block that is open. -/
inductive Block where
  /-- A chain of conditional bodies. `last` is the index of the member that opened the present body,
  and `hasElse` says whether that is the `else`. -/
  | chain (opener : Opener) (last : Nat) (hasElse : Bool)
  /-- The body of an attempt, opened by the statement with index `start`. -/
  | attempt (opener : Opener) (start : Nat)
  /-- The handler of an attempt, opened by the statement with index `start`. -/
  | handler (opener : Opener) (start : Nat)
  /-- A transaction block. -/
  | transaction (opener : Opener)
deriving DecidableEq, Repr

/-- The directive that opened the block; for a handler, the one that opened its attempt. -/
def Block.opener : Block → Opener
  | chain opener _ _ | attempt opener _ | handler opener _ | transaction opener => opener

/-- The open blocks, innermost first. -/
abbrev Nesting := List Block

/-- What a directive does where it stands. -/
structure Admission where
  /-- The earlier statement, if any, that gets this place as its target. A directive that is refused
  may still be the target of one. -/
  links : Option Nat := none
  /-- The open blocks behind the directive, or why it is refused. -/
  result : Except SyntaxError Nesting

namespace Nesting

/-- A directive that is refused, with no link made. -/
def refuse (error : SyntaxError) : Admission := { result := .error error }

/-- A directive behind which the open blocks are `blocks`, with no link made. -/
def become (blocks : Nesting) : Admission := { result := .ok blocks }

/-- Whether a directive lacks the condition that the dialect wants it to have. -/
def lacksCondition (d : Dialect) (text : String) : Bool :=
  d.requireConditions && Text.allBlank text.toList

/-- A further member of a chain. Its predecessor is linked to it before its condition is looked at:
that a condition is missing does not undo the link. -/
def acceptMember (d : Dialect) (opener : Opener) (text : String) (here : Nat) :
    Nesting → Admission
  | .transaction open' :: _ =>
    refuse (.openTransaction opener.line opener.directive.keyword open'.line)
  | .chain _ _ true :: _ => refuse (.afterElse opener.line opener.directive.keyword)
  | .chain first last false :: outer =>
    { links := some last
      result :=
        if opener.directive = .elseIf ∧ lacksCondition d text then
          .error (.missingCondition opener.line opener.directive.keyword)
        else .ok (.chain first here (opener.directive = .otherwise) :: outer) }
  | _ => refuse (.unmatched opener.line opener.directive.keyword "if")

/-- The directive `opener.directive` with the given text, as the statement with index `here`, inside
the open blocks. -/
def accept (d : Dialect) (opener : Opener) (text : String) (here : Nat) (blocks : Nesting) :
    Admission :=
  let unmatched (expected : String) :=
    refuse (.unmatched opener.line opener.directive.keyword expected)
  let crosses (open' : Opener) :=
    refuse (.openTransaction opener.line opener.directive.keyword open'.line)
  match opener.directive with
  | .debug => become blocks
  | .ifThen =>
    if lacksCondition d text then refuse (.missingCondition opener.line opener.directive.keyword)
    else become (.chain opener here false :: blocks)
  | .elseIf | .otherwise => acceptMember d opener text here blocks
  | .endIf =>
    match blocks with
    | .transaction open' :: _ => crosses open'
    | .chain _ last _ :: outer => { links := some last, result := .ok outer }
    | _ => unmatched "if"
  | .attempt | .attemptTransaction => become (.attempt opener here :: blocks)
  | .handler =>
    match blocks with
    | .transaction open' :: _ => crosses open'
    | .attempt first start :: outer =>
      { links := some start, result := .ok (.handler first here :: outer) }
    | _ => unmatched "try"
  | .endAttempt =>
    match blocks with
    | .transaction open' :: _ => crosses open'
    | .handler _ start :: outer => { links := some start, result := .ok outer }
    | _ => unmatched "catch"
  | .beginTransaction => become (.transaction opener :: blocks)
  | .endTransaction =>
    match blocks with
    | .transaction _ :: outer => become outer
    | _ => unmatched "begin"

end Nesting

end SqlFlow
