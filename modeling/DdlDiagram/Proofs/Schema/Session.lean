import DdlDiagram.Proofs.Reading.Shares
import DdlDiagram.Schema.Session
import Mathlib.Data.List.Basic
import Mathlib.Data.List.Induction

/-!
# Histories of sessions

Whatever a session has been through, its history alone tells what it holds. The open table is the
one opened last, if it has not been closed, with what was written to it since. The draft is made
of the tables closed and the directives given since the schema was last taken. So a schema that
is taken has these and nothing else, each once and in order.
-/

namespace DdlDiagram
namespace Session

open Reading (Share extend)

variable {operation : Operation}

namespace Operation

/-- Whether an operation ends the writing to the table that is open before it. -/
def endsTable : Operation → Bool
  | openTable _ => true
  | closeTable => true
  | _ => false

/-- What an operation writes to the open table, which has a name. -/
def share (name : Text) : Operation → Share
  | .column added => { Share.empty with columns := [added] }
  | .primaryKey columns => { Share.empty with primaryKey := columns }
  | .foreignKey columns target =>
    { Share.empty with
      foreignKeys := columns
      relationships :=
        [{ source := name
           target := target
           cardinality := "\x7do--||".toList
           label := "FK: ".toList ++ Text.join ", ".toList columns
           origin := .structural }] }
  | _ => .empty

def manual? : Operation → Option Relationship
  | relate directive => some
    { source := directive.source
      target := directive.target
      cardinality := directive.cardinality
      label := directive.label
      origin := .manual }
  | _ => none

end Operation

/-- What a history tells of a table: its name and the operations since it was opened. -/
structure Record where
  name : Text
  operations : List Operation
  deriving DecidableEq, Repr

namespace Record

/-- What the operations wrote, all together. -/
def share (record : Record) : Share := .all (record.operations.map (·.share record.name))

/-- The table with its columns as they were added, and the columns of each key in the order in
which they were first named. -/
def toTable (record : Record) : Table where
  name := record.name
  columns := record.share.columns
  primaryKey := .ofList record.share.primaryKey
  foreignKeys := .ofList record.share.foreignKeys

def toDraft (record : Record) : TableDraft := ⟨record.toTable, record.share.relationships⟩

def add (record : Record) (operation : Operation) : Record :=
  { record with operations := record.operations ++ [operation] }

end Record

/-- The table that is open behind a history: behind its last opening or closing, which is an
opening, operations have been written to it. -/
def openIn (history : List Operation) : Option Record :=
  match history.reverse.dropWhile (!·.endsTable) with
  | .openTable name :: _ => some ⟨name, (history.reverse.takeWhile (!·.endsTable)).reverse⟩
  | _ => none

/-- The operations since the schema was last taken. -/
def sinceTaken (history : List Operation) : List Operation :=
  (history.reverse.takeWhile (· ≠ .takeSchema)).reverse

/-- The tables closed since the schema was last taken: at each place of a closing, the table that
is open there, if one is. -/
def closedIn (history : List Operation) : List Record :=
  (List.range history.length).filterMap fun place =>
    if history[place]? = some .closeTable ∧ .takeSchema ∉ history.drop place then
      openIn (history.take place)
    else none

/-- The schema that a history makes. -/
def schemaOf (history : List Operation) : Schema where
  tables := (closedIn history).map Record.toTable
  relationships := (closedIn history).flatMap (·.share.relationships) ++
    (sinceTaken history).filterMap Operation.manual?

theorem openIn_append_openTable (history : List Operation) (name : Text) :
    openIn (history ++ [.openTable name]) = some ⟨name, []⟩ := by
  simp [openIn, Operation.endsTable]

theorem openIn_append_closeTable (history : List Operation) :
    openIn (history ++ [.closeTable]) = none := by
  simp [openIn, Operation.endsTable]

theorem openIn_append (h : operation.endsTable = false) (history : List Operation) :
    openIn (history ++ [operation]) = (openIn history).map (·.add operation) := by
  rw [openIn, openIn, List.reverse_append, List.reverse_singleton, List.singleton_append,
    List.dropWhile_cons_of_pos (by simp [h]), List.takeWhile_cons_of_pos (by simp [h])]
  split
  · simp [Record.add]
  · rfl

theorem sinceTaken_append_takeSchema (history : List Operation) :
    sinceTaken (history ++ [.takeSchema]) = [] := by
  simp [sinceTaken]

theorem sinceTaken_append (h : operation ≠ .takeSchema) (history : List Operation) :
    sinceTaken (history ++ [operation]) = sinceTaken history ++ [operation] := by
  simp [sinceTaken, h]

theorem closedIn_append_takeSchema (history : List Operation) :
    closedIn (history ++ [.takeSchema]) = [] := by
  refine List.filterMap_eq_nil_iff.2 fun place hplace => if_neg ?_
  rintro ⟨-, htaken⟩
  rw [List.mem_range, List.length_append, List.length_singleton, Nat.lt_succ_iff] at hplace
  rw [List.drop_append_of_le_length hplace] at htaken
  simp at htaken

theorem closedIn_append (h : operation ≠ .takeSchema) (history : List Operation) :
    closedIn (history ++ [operation]) =
      closedIn history ++ if operation = .closeTable then (openIn history).toList else [] := by
  have hearlier : ∀ place ∈ List.range history.length,
      (if (history ++ [operation])[place]? = some .closeTable ∧
          .takeSchema ∉ (history ++ [operation]).drop place then
        openIn ((history ++ [operation]).take place) else none) =
      if history[place]? = some .closeTable ∧ .takeSchema ∉ history.drop place then
        openIn (history.take place) else none := by
    intro place hplace
    have hlt := List.mem_range.1 hplace
    rw [List.getElem?_append_left hlt, List.drop_append_of_le_length hlt.le,
      List.take_append_of_le_length hlt.le]
    simp [h.symm]
  rw [closedIn, List.length_append, List.length_singleton, List.range_succ, List.filterMap_append,
    List.filterMap_congr hearlier, closedIn]
  congr 1
  by_cases hclose : operation = .closeTable
  · cases hopen : openIn history <;> simp [hclose, hopen]
  · simp [hclose]

/-- What is written to a table is recorded with it. -/
theorem Record.toDraft_add (record : Record) (operation : Operation) :
    (record.add operation).toDraft = extend record.toDraft (operation.share record.name) := by
  have hshare : (record.add operation).share =
      record.share.append (operation.share record.name) := by
    simp [share, add, Share.all, Share.append]
  have hkey : ∀ names others : List Text,
      NameSet.ofList (names ++ others) = (NameSet.ofList names).insertAll others := by
    intro names others
    rw [← NameSet.insertAll_empty, NameSet.insertAll_append, NameSet.insertAll_empty]
  simp only [toDraft, toTable, hshare, Share.append, hkey, extend]
  rfl

/-- The session that a history tells of. -/
def told (history : List Operation) : Session where
  draft :=
    { tables := (closedIn history).map Record.toTable
      structural := (closedIn history).flatMap (·.share.relationships)
      manual := (sinceTaken history).filterMap Operation.manual? }
  current := (openIn history).map Record.toDraft

/-- The open table has what is written to it, until it is closed or another one is opened. -/
theorem current_told_append (history : List Operation) (operation : Operation)
    (h : operation.endsTable = false) : (told (history ++ [operation])).current =
      (told history).current.map fun draft =>
        extend draft (operation.share draft.table.name) := by
  simp only [told, openIn_append h, Option.map_map]
  exact congrArg (Option.map · _) (funext fun record => record.toDraft_add operation)

/-- The draft has the directives given, and changes its tables only where one is closed. -/
theorem draft_told_append (history : List Operation) (operation : Operation)
    (htaken : operation ≠ .takeSchema) (hclose : operation ≠ .closeTable) :
    (told (history ++ [operation])).draft =
      { (told history).draft with
        manual := (told history).draft.manual ++ operation.manual?.toList } := by
  have hmanual : [operation].filterMap Operation.manual? = operation.manual?.toList := by
    cases h : operation.manual? <;> simp [h]
  simp [told, closedIn_append htaken, hclose, sinceTaken_append htaken, hmanual]

theorem fst_change (session : Session) (f : TableDraft → TableDraft) :
    (session.change f).1 = ⟨session.draft, session.current.map f⟩ := by
  obtain ⟨draft, current⟩ := session
  cases current <;> rfl

/-- What is written to the open table leaves the draft as it is. -/
theorem told_append_of_share (history : List Operation) (operation : Operation)
    {f : TableDraft → TableDraft} (hends : operation.endsTable = false)
    (hmanual : operation.manual? = none) (htaken : operation ≠ .takeSchema)
    (hf : ∀ draft, f draft = extend draft (operation.share draft.table.name)) :
    told (history ++ [operation]) =
      ⟨(told history).draft, (told history).current.map f⟩ := by
  have hclose : operation ≠ .closeTable := by
    rintro rfl
    exact nomatch hends
  have hdraft := draft_told_append history operation htaken hclose
  rw [hmanual, Option.toList_none, List.append_nil] at hdraft
  have hcurrent := current_told_append history operation hends
  exact congrArg₂ Session.mk hdraft (hcurrent.trans (congrArg (Option.map · _) (funext hf).symm))

/-- Closing moves the open table to the draft, if there is one. -/
theorem told_append_closeTable (history : List Operation) :
    told (history ++ [.closeTable]) = ((told history).step .closeTable).1 := by
  have hopened : (told history).current = (openIn history).map Record.toDraft := rfl
  have hne : Operation.closeTable ≠ .takeSchema := nofun
  have hclosed := closedIn_append hne history
  rw [if_pos rfl] at hclosed
  rw [step, hopened, told, hclosed, openIn_append_closeTable,
    sinceTaken_append hne]
  cases hopen : openIn history with
  | none => simp [told, hopen, Operation.manual?]
  | some record => simp [told, SchemaDraft.withTable, Record.toDraft, Operation.manual?]

/-- One operation leads from the session that a history tells of to that of the history with the
operation. -/
theorem step_told (history : List Operation) (operation : Operation) :
    ((told history).step operation).1 = told (history ++ [operation]) := by
  have hidle : ∀ draft : TableDraft, draft = extend draft .empty := by
    intro draft
    simp [extend, Share.empty]
  cases operation with
  | openTable name =>
      have hdraft := draft_told_append history (.openTable name) (by simp) (by simp)
      have hcurrent : (told (history ++ [.openTable name])).current = some (.named name) := by
        rw [told, openIn_append_openTable]
        rfl
      have hmanual : (Operation.openTable name).manual? = none := rfl
      rw [hmanual, Option.toList_none, List.append_nil] at hdraft
      exact (congrArg₂ Session.mk hdraft hcurrent).symm
  | column column =>
      rw [step, fst_change,
        told_append_of_share _ (.column column) rfl rfl (by simp) fun draft => ?_]
      simp [extend, Operation.share, Share.empty, TableDraft.withColumn]
  | primaryKey columns =>
      rw [step, fst_change,
        told_append_of_share _ (.primaryKey columns) rfl rfl (by simp) fun draft => ?_]
      simp [extend, Operation.share, Share.empty, TableDraft.withPrimaryKey]
  | foreignKey columns target =>
      rw [step, fst_change,
        told_append_of_share _ (.foreignKey columns target) rfl rfl (by simp) fun draft => ?_]
      simp [extend, Operation.share, Share.empty, TableDraft.withForeignKey,
        TableDraft.relationshipOf, manyToOne]
  | closeTable => exact (told_append_closeTable history).symm
  | relate directive =>
      have hdraft := draft_told_append history (.relate directive) (by simp) (by simp)
      have hcurrent := current_told_append history (.relate directive) rfl
      simp only [Operation.share, ← hidle, Option.map_id_fun', id_eq] at hcurrent
      exact (congrArg₂ Session.mk hdraft hcurrent).symm
  | askTable name =>
      rw [told_append_of_share (f := id) _ (.askTable name) rfl rfl (by simp) hidle,
        Option.map_id_fun, id_eq, step]
  | askCount =>
      rw [told_append_of_share (f := id) _ .askCount rfl rfl (by simp) hidle, Option.map_id_fun,
        id_eq, step]
  | takeSchema =>
      have hcurrent := current_told_append history .takeSchema rfl
      simp only [Operation.share, ← hidle, Option.map_id_fun', id_eq] at hcurrent
      have hdraft : (told (history ++ [.takeSchema])).draft = .empty := by
        rw [told, closedIn_append_takeSchema, sinceTaken_append_takeSchema]
        rfl
      exact (congrArg₂ Session.mk hdraft hcurrent).symm

/-- A session holds what its history tells. -/
theorem after_start (history : List Operation) : start.after history = told history := by
  induction history using List.reverseRecOn with
  | nil => rfl
  | append_singleton history operation ih =>
      rw [← step_told, ← ih, after, after, List.foldl_append]
      rfl

/-- Wherever the schema is taken, it is the one that the history up to there makes. -/
theorem getElem?_replies_takeSchema (history later : List Operation) :
    (start.replies (history ++ .takeSchema :: later))[history.length]? =
      some (.schema (schemaOf history)) := by
  rw [replies_append, List.getElem?_append_right (length_replies start history).le,
    length_replies, Nat.sub_self, after_start]
  rfl

end Session
end DdlDiagram
