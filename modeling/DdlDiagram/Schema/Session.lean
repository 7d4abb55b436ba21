import DdlDiagram.Schema.Draft

/-!
# Drafting sessions

A session drafts schemas step by step. At most one table is open at a time: columns and keys go
to it, opening another one throws it away, and closing it adds it to the draft. Taking the
schema empties the draft and leaves an open table open.
-/

namespace DdlDiagram

/-- A draft and the table that is open, if one is. -/
structure Session where
  draft : SchemaDraft
  current : Option TableDraft
  deriving DecidableEq, Repr

namespace Session

inductive Operation where
  | openTable (name : Text)
  | column (column : Column)
  | primaryKey (columns : List Text)
  | foreignKey (columns : List Text) (target : Text)
  | closeTable
  | relate (directive : Directive)
  /-- Ask whether a closed table has a name. -/
  | askTable (name : Text)
  /-- Ask for the number of closed tables. -/
  | askCount
  | takeSchema
  deriving DecidableEq, Repr

inductive Reply where
  /-- The name of the table that is open now. -/
  | current (name : Text)
  /-- The draft has grown; the number is that of its closed tables. -/
  | grown (tables : Nat)
  | count (tables : Nat)
  | truth (answer : Bool)
  | schema (schema : Schema)
  | noOpenTable
  deriving DecidableEq, Repr

def start : Session := ⟨.empty, none⟩

def change (session : Session) (f : TableDraft → TableDraft) : Session × Reply :=
  match session.current with
  | none => (session, .noOpenTable)
  | some table => ({ session with current := some (f table) }, .current (f table).table.name)

def step (session : Session) : Operation → Session × Reply
  | .openTable name => ({ session with current := some (.named name) }, .current name)
  | .column column => session.change (·.withColumn column)
  | .primaryKey columns => session.change (·.withPrimaryKey columns)
  | .foreignKey columns target => session.change (·.withForeignKey columns target)
  | .closeTable =>
    match session.current with
    | none => (session, .noOpenTable)
    | some table =>
      (⟨session.draft.withTable table, none⟩, .grown (session.draft.tables.length + 1))
  | .relate directive =>
    ({ session with draft := session.draft.withDirective directive },
      .grown session.draft.tables.length)
  | .askTable name => (session, .truth (session.draft.holds name))
  | .askCount => (session, .count session.draft.tables.length)
  | .takeSchema => ({ session with draft := .empty }, .schema session.draft.toSchema)

def after (session : Session) (operations : List Operation) : Session :=
  operations.foldl (fun session operation => (session.step operation).1) session

def replies (session : Session) : List Operation → List Reply
  | [] => []
  | operation :: rest => (session.step operation).2 :: replies (session.step operation).1 rest

theorem length_replies (session : Session) (operations : List Operation) :
    (session.replies operations).length = operations.length := by
  induction operations generalizing session with
  | nil => rfl
  | cons operation rest ih => simp [replies, ih]

/-- The replies to a sequence of operations go on from the session its first part leaves. -/
theorem replies_append (session : Session) (first second : List Operation) :
    session.replies (first ++ second) =
      session.replies first ++ (session.after first).replies second := by
  induction first generalizing session with
  | nil => rfl
  | cons operation rest ih => simp [replies, after, ih]

end Session
end DdlDiagram
