import DdlDiagram.Toml.Scalar

/-!
# Reading TOML

A document is read as its lines, which are headers and entries, and the tables are put together
from these. Reading gives nothing where the text is not well formed or defines something twice.
Brackets and braces nest to a limited depth, and a dotted key has a limited length. Within that
depth the value reader counts its steps down from a number that no text of the length at hand can
use up.
-/

namespace DdlDiagram
namespace Toml

def skipSpaces (t : Text) : Text := t.dropWhile isSpace

/-- A text without the white space, line ends and comments it starts with. -/
def skipGap? (inComment : Bool) : Text → Option Text
  | [] => some []
  | c :: rest =>
    if atLineEnd (c :: rest) then skipGap? false rest
    else if inComment then if isPrintable c then skipGap? true rest else none
    else if isSpace c then skipGap? false rest
    else if c = '#' then skipGap? true rest
    else some (c :: rest)

/-- Whether nothing but white space and a comment stands before the end of the line. -/
def lineEnds (t : Text) : Bool :=
  let rest := skipSpaces t
  rest.isEmpty || rest.head? == some '#' || atLineEnd rest

def isBareKeyChar (c : Char) : Bool := c.isAlphanum || c == '_' || c == '-'

/-- A key between points, bare or in quotes, and the rest. -/
def simpleKey? (t : Text) : Option (Text × Text) :=
  (lineString? t).or <|
    if (t.takeWhile isBareKeyChar).isEmpty then none
    else some (t.takeWhile isBareKeyChar, t.dropWhile isBareKeyChar)

/-- Keys joined by points, at most `n` of them, and the rest behind the white space that follows
them. -/
def path? (n : Nat) (t : Text) : Option (List Text × Text) :=
  match n with
  | 0 => none
  | n + 1 => do
    let (key, rest) ← simpleKey? (skipSpaces t)
    match skipSpaces rest with
    | '.' :: rest => (path? n rest).map (·.map (key :: ·) id)
    | rest => some ([key], rest)

def maxPathLength : Nat := 80

def key? (t : Text) : Option (List Text × Text) := path? maxPathLength t

/-- A text without what may stand around the equals sign of an entry: white space in a line of a
document, line ends and comments too in an inline table. -/
def skipAroundEquals? (inlined : Bool) (t : Text) : Option Text :=
  if inlined then skipGap? false t else some (skipSpaces t)

def keyOfEntry? (inlined : Bool) (t : Text) : Option (List Text × Text) := do
  let (path, rest) ← key? t
  match ← skipAroundEquals? inlined rest with
  | '=' :: rest => (skipAroundEquals? inlined rest).map (path, ·)
  | _ => none

def isScalarChar (c : Char) : Bool :=
  c.isAlphanum || ['_', '-', '+', '.', ':'].contains c

/-- What a text starts with up to a character that may not stand there. A space and a digit behind a
date start its time. -/
def scalarText (t : Text) : Text :=
  let run := t.takeWhile isScalarChar
  match t.dropWhile isScalarChar with
  | ' ' :: rest =>
    if behindDate? run = some [] ∧ rest.head?.any Char.isDigit then
      run ++ ' ' :: rest.takeWhile isScalarChar
    else run
  | _ => run

def maxNesting : Nat := 80

mutual

/-- The value a text starts with, and the rest. At most `room` arrays and inline tables may be
open within it. -/
def value? (room steps : Nat) (t : Text) : Option (Value × Text) :=
  match steps with
  | 0 => none
  | n + 1 =>
    match t with
    | '[' :: rest =>
      if room = 0 then none
      else (items? (room - 1) n rest).map fun (items, rest) => (.array items, rest)
    | '\x7b' :: rest =>
      if room = 0 then none
      else do
        let (added, rest) ← entries? (room - 1) n rest
        let entries ← addEntries .inlineTable [] added
        some (.table .inlineTable entries, rest)
    | '"' :: _ => (string? t).map fun (s, rest) => (.string s, rest)
    | '\'' :: _ => (string? t).map fun (s, rest) => (.string s, rest)
    | _ => (scalar? (scalarText t)).map (·, t.drop (scalarText t).length)

/-- The items of an array up to its closing bracket, and the rest. A comma may follow the last
item. -/
def items? (room steps : Nat) (t : Text) : Option (List Value × Text) :=
  match steps with
  | 0 => none
  | n + 1 => do
    match ← skipGap? false t with
    | ']' :: rest => some ([], rest)
    | t =>
      let (item, rest) ← value? room n t
      match ← skipGap? false rest with
      | ']' :: rest => some ([item], rest)
      | ',' :: rest => (items? room n rest).map (·.map (item :: ·) id)
      | _ => none

/-- The entries of an inline table up to its closing brace, and the rest. A comma may follow the
last entry. -/
def entries? (room steps : Nat) (t : Text) : Option (List (List Text × Value) × Text) :=
  match steps with
  | 0 => none
  | n + 1 => do
    match ← skipGap? false t with
    | '\x7d' :: rest => some ([], rest)
    | t =>
      let (path, rest) ← keyOfEntry? true t
      let (value, rest) ← value? room n rest
      match ← skipGap? false rest with
      | '\x7d' :: rest => some ([(path, value)], rest)
      | ',' :: rest => (entries? room n rest).map (·.map ((path, value) :: ·) id)
      | _ => none

end

inductive Line where
  | header (path : List Text)
  | doubleHeader (path : List Text)
  | entry (path : List Text) (value : Value)

def line? (t : Text) : Option (Line × Text) :=
  match t with
  | '[' :: '[' :: rest => do
    let (path, rest) ← key? rest
    match rest with
    | ']' :: ']' :: rest => some (.doubleHeader path, rest)
    | _ => none
  | '[' :: rest => do
    let (path, rest) ← key? rest
    match rest with
    | ']' :: rest => some (.header path, rest)
    | _ => none
  | _ => do
    let (path, rest) ← keyOfEntry? false t
    let (value, rest) ← value? maxNesting (2 * rest.length + 2) rest
    some (.entry path value, rest)

def linesOf? : Nat → Text → Option (List Line)
  | 0, _ => none
  | n + 1, t => do
    match ← skipGap? false t with
    | [] => some []
    | t =>
      let (line, rest) ← line? t
      if lineEnds rest then (linesOf? n rest).map (line :: ·) else none

/-- The entries that lines up to the next header give, and the remaining lines. -/
def splitEntries : List Line → List (List Text × Value) × List Line
  | .entry path value :: rest => (splitEntries rest).map ((path, value) :: ·) id
  | lines => ([], lines)

theorem length_splitEntries_le (lines : List Line) :
    (splitEntries lines).2.length ≤ lines.length := by
  fun_induction splitEntries lines <;> simp_all
  omega

/-- A document with the table of a header, which holds the entries `added`. A header may give
entries to a table that was only implied, and a header in double brackets adds a table to those
of the same name. -/
def addTable (document : Entries) (double : Bool) (path : List Text)
    (added : List (List Text × Value)) : Option Entries :=
  match path.getLast? with
  | none => none
  | some key =>
    changeAt .implied (· ≠ .inlineTable)
      (fun _ entries => do
        match double, entries.get? key with
        | false, none => do
          let inner ← addEntries .header [] added
          some (entries.put key (.table .header inner))
        | false, some (.table .implied inner) => do
          let inner ← addEntries .header inner added
          some (entries.put key (.table .header inner))
        | true, none => do
          let inner ← addEntries .header [] added
          some (entries.put key (.tables [.table .header inner]))
        | true, some (.tables items) => do
          let inner ← addEntries .header [] added
          some (entries.put key (.tables (items ++ [.table .header inner])))
        | _, _ => none)
      .header path.dropLast document

/-- A document with the tables of lines that start with a header. -/
def addTables (document : Entries) (lines : List Line) : Option Entries :=
  match lines with
  | [] => some document
  | .header path :: rest => do
    let document ← addTable document false path (splitEntries rest).1
    addTables document (splitEntries rest).2
  | .doubleHeader path :: rest => do
    let document ← addTable document true path (splitEntries rest).1
    addTables document (splitEntries rest).2
  | .entry .. :: _ => none
termination_by lines.length
decreasing_by all_goals exact Nat.lt_succ_of_le (length_splitEntries_le rest)

def dropByteOrderMark : Text → Text
  | '\uFEFF' :: rest => rest
  | t => t

def document? (t : Text) : Option Entries := do
  let t := dropByteOrderMark t
  let lines ← linesOf? (t.length + 1) t
  let document ← addEntries .header [] (splitEntries lines).1
  addTables document (splitEntries lines).2

end Toml
end DdlDiagram
