set_option autoImplicit false

/-! # TOML documents

A TOML document is a table, built statement by statement. Most of the rules about it say what a
later statement may still add to, so a table remembers how it came about (`Toml.Origin`):

* a header `[a.b]` opens the table `a.b` once, and implies the table `a`, which may be opened
  later;
* a dotted key `a.b = 1` makes a table `a` to which only dotted keys of the same table may add;
* an inline table is complete as it stands;
* a header `[[a]]` adds one more table to the array `a`, and what follows goes to the last one.

The three functions at the end are the three kinds of statements. Each gives the new content of
the document, or nothing when the statement is not allowed. -/

namespace L32

namespace Toml

/-- How a table came about. -/
inductive Origin where
  /-- By a header of its own. -/
  | header
  /-- As a part of the path of a header. -/
  | implied
  /-- As a part of a dotted key. -/
  | dotted
  /-- As a value between braces. -/
  | inline
  deriving DecidableEq, Repr

end Toml

inductive Toml where
  | str (value : String)
  | integer (value : Int)
  | float (value : Float)
  | bool (value : Bool)
  /-- A date, a time, or both, as it is written. -/
  | date (text : String)
  | array (items : List Toml)
  | table (origin : Toml.Origin) (fields : List (String × Toml))
  /-- The tables of an array that is built by headers, the last one apart. -/
  | tables (earlier : List Toml) (last : List (String × Toml))
  deriving Inhabited

namespace Toml

/-- The content of a table: its keys in the order of their first mention. -/
abbrev Fields := List (String × Toml)

def get? (key : String) : Fields → Option Toml
  | [] => none
  | (k, v) :: rest => if k = key then some v else get? key rest

/-- Changes the value of a key, or gives it one; `change` says how, and whether it is allowed. -/
def alter (key : String) (change : Option Toml → Option Toml) : Fields → Option Fields
  | [] => (change none).map fun v => [(key, v)]
  | (k, v) :: rest =>
    if k = key then (change (some v)).map fun w => (k, w) :: rest
    else (alter key change rest).map ((k, v) :: ·)

/-- Changes the table at the end of a path of headers. Tables that are missing on the way are
implied; of an array of tables, the last one is meant. -/
def descend (change : Fields → Option Fields) : List String → Fields → Option Fields
  | [], fields => change fields
  | key :: path, fields =>
    alter key (fun
      | none => (descend change path []).map (.table .implied)
      | some (.table .inline _) => none
      | some (.table origin sub) => (descend change path sub).map (.table origin)
      | some (.tables earlier last) => (descend change path last).map (.tables earlier)
      | some _ => none) fields

/-- Gives a key of a table a value, at the end of a path of dotted keys. The key is new. The table
that holds it, if it is not the table itself, came about by dotted keys. -/
def assign (key : String) (value : Toml) : List String → Fields → Option Fields
  | [], fields =>
    alter key (fun
      | none => some value
      | some _ => none) fields
  | k :: path, fields =>
    alter k (fun
      | none => (assign key value path []).map (.table .dotted)
      | some (.table .dotted sub) => (assign key value path sub).map (.table .dotted)
      | some (.table .implied sub) =>
        if path.isEmpty then none else (assign key value path sub).map (.table .implied)
      | some (.tables earlier last) =>
        if path.isEmpty then none else (assign key value path last).map (.tables earlier)
      | some _ => none) fields

/-- Opens a table by a header: it is new, or was only implied so far. -/
def openTable (key : String) : Fields → Option Fields :=
  alter key fun
    | none => some (.table .header [])
    | some (.table .implied fields) => some (.table .header fields)
    | some _ => none

/-- Adds a table to an array of tables by a header. -/
def openNext (key : String) : Fields → Option Fields :=
  alter key fun
    | none => some (.tables [] [])
    | some (.tables earlier last) => some (.tables (earlier ++ [.table .header last]) [])
    | some _ => none

end Toml

end L32
