import SqlFlow.Program

/-!
# Listings of programs

A program as a table for people to read: one line for each statement with its index, its line in
the script, its kind, its target and its text.

The columns have least widths and no greatest ones. A text of several lines is shown on one: each
newline in it becomes a space.
-/

namespace SqlFlow

namespace Listing

/-- At least `width` characters, filled up with spaces on the left. -/
def alignRight (width : Nat) (s : String) : String :=
  "".pushn ' ' (width - s.length) ++ s

/-- At least `width` characters, filled up with spaces on the right. -/
def alignLeft (width : Nat) (s : String) : String :=
  s.pushn ' ' (width - s.length)

/-- The text on a line of its own. -/
def flatten (text : String) : String :=
  String.ofList (text.toList.map fun c => if c == '\n' then ' ' else c)

/-- The target as it is listed; a statement without one leaves the column blank. -/
def target : Option Nat → String
  | some i => s!"-> {i}"
  | none => ""

end Listing

open Listing in
/-- The line of the listing for a statement with the given index, newline included. -/
def Statement.listingLine (index : Nat) (s : Statement) : String :=
  alignRight 4 (toString index) ++ "  " ++ alignRight 4 (toString s.line) ++ "  " ++
    alignLeft 14 s.kind.keyword ++ " " ++ alignLeft 8 (Listing.target s.target) ++ " " ++
    flatten s.text ++ "\n"

/-- The listing of a program. -/
def Program.listing (p : Program) : String :=
  String.join (p.statements.toList.mapIdx fun i s => s.listingLine i)

end SqlFlow
