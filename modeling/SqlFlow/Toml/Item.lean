import SqlFlow.Number.Decimal

/-!
# TOML documents

The tables of a TOML document, and the rules on how they may be filled.

* `Item`: a value or a table. Arrays and inline tables are values: they are finished where they are
  written.
* `Entries`: the keys of a table, in the order they were first written.
* `Entries.put`: a key with its value, where the key may be dotted.
* `Entries.openTable` and `Entries.openElement`: a table header and an array-of-tables header.

A table is defined once. What a header defines, dotted keys may not extend; what dotted keys define,
a header may not define again; what only the path of a longer header mentions, a header may define
still.
-/

namespace SqlFlow.Toml

/-- How a table came to be. -/
inductive Origin where
  /-- A header defines it. -/
  | header
  /-- The header of a table inside it mentions it. -/
  | mentioned
  /-- Dotted keys define it. -/
  | dotted
deriving DecidableEq, Repr

/-- What a key stands for. -/
inductive Item where
  | string (s : String)
  | integer (i : Int)
  | float (n : Number.Numeral)
  | boolean (b : Bool)
  /-- A date, a time or both, as it is written. -/
  | dateTime (text : String)
  | array (items : List Item)
  | inline (entries : List (String × Item))
  | table (origin : Origin) (entries : List (String × Item))
  /-- An array of tables: those before the last, and the last one. -/
  | tables (earlier : List (List (String × Item))) (last : List (String × Item))
deriving Repr

/-- The keys of a table with what they stand for. -/
abbrev Entries := List (String × Item)

namespace Entries

/-- What a key stands for. -/
def find? (entries : Entries) (key : String) : Option Item := entries.lookup key

/-- Replaces what a key stands for, as `f` says; a new key comes last. -/
def alter (key : String) (f : Option Item → Option Item) : Entries → Option Entries
  | [] => (f none).map fun item => [(key, item)]
  | (k, item) :: entries =>
    if k = key then (f (some item)).map fun item => (k, item) :: entries
    else (alter key f entries).map ((k, item) :: ·)

/-- Gives a key that is not there yet. -/
def add (key : String) (item : Item) (entries : Entries) : Option Entries :=
  alter key (fun
    | none => some item
    | some _ => none) entries

/-- Gives a dotted key, by the path of its parts. The tables on the way must have been defined by
dotted keys, or be defined now; a table that a header only mentions may be passed on the way to one
of those, and so may the last table of an array. -/
def put (item : Item) : (path : List String) → Entries → Option Entries
  | [], _ => none
  | [key], entries => add key item entries
  | key :: next :: path, entries =>
    alter key (fun
      | none => (put item (next :: path) []).map (.table .dotted)
      | some (.table .dotted inner) => (put item (next :: path) inner).map (.table .dotted)
      | some (.table .mentioned inner) =>
        if path.isEmpty then none else (put item (next :: path) inner).map (.table .mentioned)
      | some (.tables earlier last) =>
        if path.isEmpty then none else (put item (next :: path) last).map (.tables earlier)
      | some _ => none) entries

/-- Changes the table at a path of headers, mentioning the tables on the way that are new. An array
of tables stands for its last one. -/
def within (f : Entries → Option Entries) : (path : List String) → Entries → Option Entries
  | [], entries => f entries
  | key :: path, entries =>
    alter key (fun
      | none => (within f path []).map (.table .mentioned)
      | some (.table origin inner) => (within f path inner).map (.table origin)
      | some (.tables earlier last) => (within f path last).map (.tables earlier)
      | some _ => none) entries

/-- Defines a table, which may have been mentioned but not defined. -/
def openTable (path : List String) (key : String) (entries : Entries) : Option Entries :=
  within (alter key fun
    | none => some (.table .header [])
    | some (.table .mentioned inner) => some (.table .header inner)
    | some _ => none) path entries

/-- Begins the next table of an array of tables. -/
def openElement (path : List String) (key : String) (entries : Entries) : Option Entries :=
  within (alter key fun
    | none => some (.tables [] [])
    | some (.tables earlier last) => some (.tables (earlier ++ [last]) [])
    | some _ => none) path entries

end Entries

end SqlFlow.Toml
