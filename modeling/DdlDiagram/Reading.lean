import DdlDiagram.Cleaned
import DdlDiagram.Declaration.Reader
import DdlDiagram.Schema.Draft
import DdlDiagram.Statement
import DdlDiagram.TableBody

/-!
# Reading a schema

A text is cleaned and cut into chunks, each chunk is read as a table and each directive as a
relationship. Nothing that goes wrong stops the reading: what cannot be used is left out with a
warning, and only a text that declares no table at all has no schema.
-/

namespace DdlDiagram

/-- What the reading left out. -/
inductive Warning where
  | statementSkipped (index : Nat) (reason : TableBody.Fault)
  | declarationUnknown (table text : Text)
  | tableRepeated (index : Nat) (table : Text)
  | directiveUnknown (text : Text)
  deriving DecidableEq, Repr

/-- The wording of a warning. Chunks are numbered from zero. -/
def Warning.message : Warning → Text
  | statementSkipped index reason =>
    "Skipped table statement #".toList ++ Nat.toDigits 10 index ++ ": ".toList ++ reason.message
  | declarationUnknown table text =>
    "Unrecognized declaration in table \x60".toList ++ table ++ "\x60: ".toList ++ text
  | tableRepeated index table =>
    "Skipped table statement #".toList ++ Nat.toDigits 10 index ++
      ": duplicate table \x60".toList ++ table ++ ['\x60']
  | directiveUnknown text => "Unrecognized diagram directive: ".toList ++ text

/-- A schema and the warnings of its reading, those of statements before those of directives. -/
structure Reading where
  schema : Schema
  warnings : List Warning
  deriving DecidableEq, Repr

namespace Reading

/-- A table with a declaration added to it, and the warning if there is nothing to add. A column
with a key of its own adds to the keys before it is added itself. -/
def declare (draft : TableDraft) : Declaration → TableDraft × List Warning
  | .column column =>
    let draft := if column.primaryKey then draft.withPrimaryKey [column.name] else draft
    let draft := match column.references with
      | some target => draft.withForeignKey [column.name] target
      | none => draft
    (draft.withColumn ⟨column.name, column.rawType, column.nullable⟩, [])
  | .primaryKey columns => (draft.withPrimaryKey columns, [])
  | .foreignKey columns target => (draft.withForeignKey columns target, [])
  | .ignored => (draft, [])
  | .unknown text => (draft, [.declarationUnknown draft.table.name text])

def declareAll (draft : TableDraft) : List Text → TableDraft × List Warning
  | [] => (draft, [])
  | line :: rest =>
    let first := declare draft (.ofText line)
    let others := declareAll first.1 rest
    (others.1, first.2 ++ others.2)

def tableOf (body : TableBody) : TableDraft × List Warning :=
  declareAll (.named body.name) body.declarations

/-- The draft with the table of a chunk added, and the warnings. The chunk has a number in the
text. A table of a name that the draft holds already is left out. -/
def addChunk (draft : SchemaDraft) (index : Nat) (chunk : Text) : SchemaDraft × List Warning :=
  match TableBody.ofChunk chunk with
  | .error reason => (draft, [.statementSkipped index reason])
  | .ok body =>
    if draft.holds body.name then (draft, [.tableRepeated index body.name])
    else (draft.withTable (tableOf body).1, (tableOf body).2)

/-- The draft with the tables of chunks added in order, the first of which has the number
`index`, and the warnings. -/
def addChunks (draft : SchemaDraft) (index : Nat) : List Text → SchemaDraft × List Warning
  | [] => (draft, [])
  | chunk :: rest =>
    let first := addChunk draft index chunk
    let others := addChunks first.1 (index + 1) rest
    (others.1, first.2 ++ others.2)

/-- The draft with the relationship of a directive added, and the warning if there is none. -/
def addDirective (draft : SchemaDraft) (body : Text) : SchemaDraft × List Warning :=
  match Directive.ofBody? body with
  | some directive => (draft.withDirective directive, [])
  | none => (draft, [.directiveUnknown body])

def addDirectives (draft : SchemaDraft) : List Text → SchemaDraft × List Warning
  | [] => (draft, [])
  | body :: rest =>
    let first := addDirective draft body
    let others := addDirectives first.1 rest
    (others.1, first.2 ++ others.2)

/-- The reading of chunks and directives: first all tables, then all relationships that were
given by hand. -/
def ofParts (chunks directives : List Text) : Reading :=
  let tables := addChunks .empty 0 chunks
  let all := addDirectives tables.1 directives
  ⟨all.1.toSchema, tables.2 ++ all.2⟩

/-- The schema that a text declares, with the warnings of its reading. A text without a
`CREATE TABLE` has none. The words `marks` mark a line as a directive. -/
def ofText? (marks : List Text) (t : Text) : Option Reading :=
  let cleaned := Cleaned.ofText marks t
  let chunks := Statement.chunks cleaned.text
  if chunks.isEmpty then none else some (ofParts chunks cleaned.directives)

end Reading
end DdlDiagram
