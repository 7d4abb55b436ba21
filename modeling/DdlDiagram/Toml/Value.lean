import DdlDiagram.Text.Basic

/-!
# TOML values

A TOML document is a table of values. How a table came to be decides who may add to it later:
a table that only a longer path implies may still get a header of its own, one that dotted keys
make may be extended by further dotted keys, and an inline table is closed.
-/

namespace DdlDiagram
namespace Toml

inductive TableOrigin where
  /-- By a header, or as the document itself. -/
  | header
  /-- By a header for a table inside it. -/
  | implied
  /-- By a dotted key. -/
  | dottedKey
  | inlineTable
  deriving DecidableEq, Repr

/-- A floating-point number as written: a decimal significand with a power of ten, or one of
the names for infinity and for what is not a number. -/
inductive Floating where
  | decimal (significand : Nat) (exponent : Int)
  | named
  deriving DecidableEq, Repr

inductive Value where
  | string (text : Text)
  | integer (number : Int)
  /-- The mark of a base without digits behind it. It has its place in a document but writes no
  number. -/
  | baseMark
  | floating (number : Floating)
  | boolean (truth : Bool)
  /-- A date, a time, or a date with a time, as written. -/
  | moment (text : Text)
  | array (items : List Value)
  /-- The tables that headers in double brackets make, in order. -/
  | tables (items : List Value)
  | table (origin : TableOrigin) (entries : List (Text × Value))

/-- The entries of a table in the order of their keys' first appearance. -/
abbrev Entries := List (Text × Value)

namespace Entries

def get? (entries : Entries) (key : Text) : Option Value :=
  (entries.find? (·.1 = key)).map (·.2)

/-- The entries with a value for a key, in the place of the old value if there is one. -/
def put (entries : Entries) (key : Text) (value : Value) : Entries :=
  match entries with
  | [] => [(key, value)]
  | (other, old) :: rest =>
    if other = key then (key, value) :: rest else (other, old) :: put rest key value

end Entries

/-- The entries after a change to the table that a path leads to. Tables that are missing on
the way are made with the origin `made`; a table can be gone through if `passes` says so of its
origin. A path that meets tables in double brackets goes through the last of them. -/
def changeAt (made : TableOrigin) (passes : TableOrigin → Bool)
    (change : TableOrigin → Entries → Option Entries) :
    TableOrigin → List Text → Entries → Option Entries
  | origin, [], entries => change origin entries
  | _, key :: path, entries =>
    match entries.get? key with
    | none =>
      (changeAt made passes change made path []).map fun inner =>
        entries.put key (.table made inner)
    | some (.table origin inner) =>
      if passes origin then
        (changeAt made passes change origin path inner).map fun inner =>
          entries.put key (.table origin inner)
      else none
    | some (.tables items) =>
      match items.getLast? with
      | some (.table origin inner) =>
        (changeAt made passes change origin path inner).map fun inner =>
          entries.put key (.tables (items.dropLast ++ [.table origin inner]))
      | _ => none
    | some _ => none

/-- The entries of a table with a further one for a dotted key. The key has to be new, and so
has the table it ends in, unless dotted keys made it. -/
def addEntry (origin : TableOrigin) (entries : Entries) (path : List Text) (value : Value) :
    Option Entries :=
  match path.getLast? with
  | none => none
  | some key =>
    changeAt .dottedKey (fun o => o = .implied || o = .dottedKey)
      (fun o inner =>
        if decide (o = .dottedKey) == path.dropLast.isEmpty then none
        else if (inner.get? key).isSome then none
        else some (inner.put key value))
      origin path.dropLast entries

def addEntries (origin : TableOrigin) (entries : Entries) (added : List (List Text × Value)) :
    Option Entries :=
  added.foldlM (fun entries (path, value) => addEntry origin entries path value) entries

end Toml
end DdlDiagram
