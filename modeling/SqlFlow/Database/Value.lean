import SqlFlow.Literal

/-!
# Values and results

What a database answers when it accepts a statement, and when an answer counts as true.

* `Value` and `Value.truthy`: one cell of a result.
* `QueryResult` and `QueryResult.truthy`: the whole result. A result set is as true as its first
  value; a statement without a result set is true if it changed a row.
-/

namespace SqlFlow

/-- A cell of a result. -/
inductive Value where
  | null
  | text (s : String)
  | integer (i : Int)
  | float (x : Float)
  | boolean (b : Bool)
  | binary (bytes : List UInt8)
deriving BEq, Repr

namespace Value

def isNull : Value → Bool
  | null => true
  | _ => false

/-- Whether the value counts as true: null, zero and what is empty do not. A text that reads as a
literal has the literal's truth value, and any other text is true unless it is blank. -/
def truthy : Value → Bool
  | null => false
  | text s => (Literal.truth? s).getD (!Text.allBlank s.toList)
  | integer i => i != 0
  | float x => x != 0.0
  | boolean b => b
  | binary bytes => !bytes.isEmpty

end Value

/-- The answer to a statement. -/
structure QueryResult where
  /-- The names of the columns; none if the statement returns no rows. -/
  columns : List String := []
  rows : List (List Value) := []
  /-- How many rows the statement changed. Databases report less than `2 ^ 64`. -/
  rowsAffected : Nat := 0
deriving BEq, Repr

namespace QueryResult

/-- The answer to a statement that returns no rows. -/
def affected (n : Nat) : QueryResult := { rowsAffected := n }

/-- The answer that holds one value. -/
def scalar (v : Value) : QueryResult := { columns := ["VALUE"], rows := [[v]] }

/-- The first column of the first row. -/
def first? (r : QueryResult) : Option Value := r.rows.head?.bind List.head?

/-- Whether the result counts as true. A result set without a first value does not. -/
def truthy (r : QueryResult) : Bool :=
  if r.columns.isEmpty && r.rows.isEmpty then 0 < r.rowsAffected
  else r.first?.any Value.truthy

end QueryResult

end SqlFlow
