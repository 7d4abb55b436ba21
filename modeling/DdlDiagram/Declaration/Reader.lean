import DdlDiagram.Declaration.Basic
import DdlDiagram.Keyword

/-!
# Reading declarations

A declaration is read by its words. The first word, up to a group that follows it directly,
decides whether it is a clause or a column. The words of a clause have to come in their order;
the modifiers of a column may come in any order, and those that say nothing about the diagram
are passed over.
-/

namespace DdlDiagram
namespace Declaration

/-- The first group among the first `n` words, with the words behind it. -/
def groupWithin? : Nat → List Text → Option (Text × List Text)
  | 0, _ => none
  | _ + 1, [] => none
  | n + 1, word :: rest =>
    match word.group? with
    | some body => some (body, rest)
    | none => groupWithin? n rest

/-- The columns of `KEY (a, b)` or `KEY(a, b)`, with the words behind the list. A word between
`KEY` and the list is the name of an index. -/
def columnsOfKey? : List Text → Option (List Text × List Text)
  | [] => none
  | word :: rest =>
    if Keyword.key.is word.beforeGroup then
      match word.group? with
      | some body => some (body.identifiers, rest)
      | none => (groupWithin? 2 rest).map fun (body, others) => (body.identifiers, others)
    else none

/-- The last segment of a table name that may be qualified and quoted. -/
def tableName (t : Text) : Text :=
  Text.unquote (t.reverse.takeWhile (· != '.')).reverse

/-- The table that `REFERENCES name` or `REFERENCES name(columns)` names. -/
def target? : List Text → Option Text
  | word :: name :: _ =>
    if Keyword.references.is word && !(tableName name.beforeGroup).isEmpty then
      some (tableName name.beforeGroup)
    else none
  | _ => none

def primaryKey? (words : List Text) : Option Declaration :=
  match columnsOfKey? words with
  | some (columns, _) => if columns.isEmpty then none else some (.primaryKey columns)
  | none => none

def foreignKey? (words : List Text) : Option Declaration :=
  match columnsOfKey? words with
  | some (columns, rest) =>
    match target? rest with
    | some target => if columns.isEmpty then none else some (.foreignKey columns target)
    | none => none
  | none => none

/-- Whether a word of a constraint starts a key clause. -/
def startsKeyClause (word : Text) : Bool :=
  Keyword.foreign.is word.beforeGroup || Keyword.primary.is word

/-- The clause whose words behind `CONSTRAINT` are given: the first key clause among them, or
else a clause without a say in the diagram directly behind the name. -/
def constraint? (words : List Text) : Option Declaration :=
  match words.dropWhile (!startsKeyClause ·) with
  | word :: rest => if Keyword.primary.is word then primaryKey? rest else foreignKey? rest
  | [] =>
    match words with
    | _ :: word :: _ =>
      if [Keyword.unique, .check, .key, .index].any (·.is word.beforeGroup) then some .ignored
      else none
    | _ => none

/-- Whether a word and the next one are two given keywords, anywhere in a list. -/
def haveNeighbours (first second : Keyword) : List Text → Bool
  | [] => false
  | word :: rest => (first.is word && rest.head?.any second.is) || haveNeighbours first second rest

/-- The table named by the first `REFERENCES` clause that names one. -/
def firstTarget? : List Text → Option Text
  | [] => none
  | word :: rest => (target? (word :: rest)).or (firstTarget? rest)

def columnWith (name rawType : Text) (modifiers : List Text) : ColumnDeclaration where
  name := name.unquote
  rawType := rawType
  nullable := !haveNeighbours .notWord .null modifiers
  primaryKey := haveNeighbours .primary .key modifiers
  references := firstTarget? modifiers

/-- The column that words declare: a name, a type and modifiers. The parameters of the type may
be a word of their own. -/
def column? : List Text → Option ColumnDeclaration
  | name :: rawType :: rest =>
    match rest with
    | ('(' :: parameters) :: modifiers =>
      some (columnWith name (rawType ++ '(' :: parameters) modifiers)
    | modifiers => some (columnWith name rawType modifiers)
  | _ => none

/-- The declaration that words make, if the reader knows one. -/
def ofWords? : List Text → Option Declaration
  | [] => none
  | first :: rest =>
    let head := first.beforeGroup
    if Keyword.primary.is head then primaryKey? rest
    else if Keyword.foreign.is head then foreignKey? rest
    else if Keyword.constraint.is head then constraint? rest
    else if [Keyword.key, .unique, .index, .fulltext, .spatial, .check].any (·.is head) then
      some .ignored
    else (column? (first :: rest)).map .column

/-- The declaration that a text makes. An unknown one carries the whole text. -/
def ofText (t : Text) : Declaration := (ofWords? t.words).getD (.unknown t)

end Declaration
end DdlDiagram
