/-!
# Syntax errors

What can be wrong with a script before anything runs. Two errors are found while the text is split
(`unterminatedLiteral`, `unterminatedComment`); the others when the blocks are matched up.

Each error has a `line`, a `message`, a stable `code`, and, where there is one obvious way out, a
`help` text.
-/

namespace SqlFlow

/-- A fault of a script's text. Directives are named by their keywords. -/
inductive SyntaxError where
  /-- A literal that was opened on `line` and runs to the end of the script. -/
  | unterminatedLiteral (line : Nat) (quote : Char)
  /-- A block comment that was opened on `line` and runs to the end of the script. -/
  | unterminatedComment (line : Nat)
  /-- A directive that continues or closes a block while no such block is innermost. -/
  | unmatched (line : Nat) (directive expected : String)
  /-- A block that was opened on `line` and is still open at the end of the script. -/
  | unclosed (line : Nat) (directive : String)
  /-- A further member of a chain behind its `else`. -/
  | afterElse (line : Nat) (directive : String)
  /-- A member of a chain that needs a condition and has none. -/
  | missingCondition (line : Nat) (directive : String)
  /-- A directive of a chain or a handler that would cross the end of a `begin` block. -/
  | openTransaction (line : Nat) (directive : String) (beginLine : Nat)
deriving DecidableEq, Repr

namespace SyntaxError

/-- The line the error is reported at. -/
def line : SyntaxError → Nat
  | unterminatedLiteral line _ | unterminatedComment line | unmatched line _ _ | unclosed line _
  | afterElse line _ | missingCondition line _ | openTransaction line _ _ => line

def message : SyntaxError → String
  | unterminatedLiteral line quote => s!"line {line}: unterminated {quote} literal"
  | unterminatedComment line => s!"line {line}: unterminated block comment"
  | unmatched line directive expected =>
    s!"line {line}: '{directive}' without matching '{expected}'"
  | unclosed line directive => s!"line {line}: '{directive}' is never closed"
  | afterElse line directive => s!"line {line}: '{directive}' after 'else' in the same if-chain"
  | missingCondition line directive => s!"line {line}: '{directive}' requires a condition"
  | openTransaction line directive beginLine =>
    s!"line {line}: '{directive}' inside an open 'begin' block started at line {beginLine}"

/-- The error's name for programs, the same for every occurrence. -/
def code : SyntaxError → String
  | unterminatedLiteral .. => "sqlscript::unterminated_quote"
  | unterminatedComment .. => "sqlscript::unterminated_comment"
  | unmatched .. => "sqlscript::unmatched_directive"
  | unclosed .. => "sqlscript::unclosed_block"
  | afterElse .. => "sqlscript::else_after_else"
  | missingCondition .. => "sqlscript::missing_condition"
  | openTransaction .. => "sqlscript::open_transaction"

/-- Advice on how to mend the script. -/
def help? : SyntaxError → Option String
  | unclosed .. => some "add the matching closing directive"
  | openTransaction .. => some "close the block with 'endtransaction' first"
  | _ => none

end SyntaxError

end SqlFlow
