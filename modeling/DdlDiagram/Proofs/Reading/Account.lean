import DdlDiagram.Proofs.Reading.Parts
import Mathlib.Data.List.Nodup
import Mathlib.Data.List.Perm.Basic

/-!
# Accounts of readings

Nothing of a text is lost without a trace. Each chunk has one of three fates: it is the next table,
it is no table, or it has the name of a table that was accepted before. Each line of an accepted
chunk has a share in its table, and each directive is answered with a relationship or a warning. The
schema and the warnings are what fates, shares and answers add up to, in the order of the text.
-/

namespace DdlDiagram

/-- The number of the chunk that was left out, if the warning is about one. -/
def Warning.number? : Warning → Option Nat
  | statementSkipped index _ => some index
  | tableRepeated index _ => some index
  | _ => none

namespace Reading

inductive Fate where
  | accepted (body : TableBody)
  | malformed (reason : TableBody.Fault)
  | repeated (name : Text)
  deriving DecidableEq, Repr

namespace Fate

def body? : Fate → Option TableBody
  | accepted body => some body
  | _ => none

def warnings (index : Nat) : Fate → List Warning
  | accepted body => body.share.warnings
  | malformed reason => [.statementSkipped index reason]
  | repeated name => [.tableRepeated index name]

def ofChunk (names : List Text) (chunk : Text) : Fate :=
  match TableBody.ofChunk chunk with
  | .error reason => malformed reason
  | .ok body => if body.name ∈ names then repeated body.name else accepted body

variable {names : List Text} {chunk name : Text} {body : TableBody} {reason : TableBody.Fault}

theorem ofChunk_eq_malformed_iff :
    ofChunk names chunk = malformed reason ↔ TableBody.ofChunk chunk = .error reason := by
  rw [ofChunk]
  cases TableBody.ofChunk chunk with
  | error other => simp
  | ok other => by_cases hname : other.name ∈ names <;> simp [hname]

theorem ofChunk_eq_repeated_iff : ofChunk names chunk = repeated name ↔
    ∃ body, TableBody.ofChunk chunk = .ok body ∧ body.name = name ∧ name ∈ names := by
  rw [ofChunk]
  cases TableBody.ofChunk chunk with
  | error other => simp
  | ok other => by_cases hname : other.name ∈ names <;> grind

theorem ofChunk_eq_accepted_iff : ofChunk names chunk = accepted body ↔
    TableBody.ofChunk chunk = .ok body ∧ body.name ∉ names := by
  rw [ofChunk]
  cases TableBody.ofChunk chunk with
  | error other => simp
  | ok other => by_cases hname : other.name ∈ names <;> grind

end Fate

def acceptedOf (fates : List Fate) : List TableBody := fates.filterMap Fate.body?

def namesOf (fates : List Fate) : List Text := (acceptedOf fates).map TableBody.name

/-- The fates of chunks in their order, behind tables of the given names. -/
def fatesOf (names : List Text) : List Text → List Fate
  | [] => []
  | chunk :: rest =>
    let fate := Fate.ofChunk names chunk
    fate :: fatesOf (names ++ namesOf [fate]) rest

def warningsOf (index : Nat) (fates : List Fate) : List Warning :=
  (fates.zipIdx index).flatMap fun fate => fate.1.warnings fate.2

/-- What a directive is answered with: its relationship, or a warning. -/
def answerOf (body : Text) : Relationship ⊕ Warning :=
  match Directive.ofBody? body with
  | some directive => .inl (SchemaDraft.relationshipOf directive)
  | none => .inr (.directiveUnknown body)

/-- The kinds of answers to a directive: a manual relationship of its parts, or a warning with what
stands behind its mark. -/
inductive Answers (body : Text) : Relationship ⊕ Warning → Prop where
  | relationship {source cardinality target label : Text} :
      Directive.ofBody? body = some ⟨source, cardinality, target, label⟩ →
      Answers body (.inl ⟨source, target, cardinality, label, .manual⟩)
  | warning : Directive.ofBody? body = none → Answers body (.inr (.directiveUnknown body))

theorem answers_answerOf (body : Text) : Answers body (answerOf body) := by
  rw [answerOf]
  cases hbody : Directive.ofBody? body with
  | some directive => exact .relationship hbody
  | none => exact .warning hbody

variable {fates : List Fate} {chunks names : List Text}

@[simp] theorem acceptedOf_nil : acceptedOf [] = [] := rfl

@[simp] theorem acceptedOf_accepted (body : TableBody) (fates : List Fate) :
    acceptedOf (.accepted body :: fates) = body :: acceptedOf fates := rfl

@[simp] theorem acceptedOf_malformed (reason : TableBody.Fault) (fates : List Fate) :
    acceptedOf (.malformed reason :: fates) = acceptedOf fates := rfl

@[simp] theorem acceptedOf_repeated (name : Text) (fates : List Fate) :
    acceptedOf (.repeated name :: fates) = acceptedOf fates := rfl

theorem acceptedOf_cons (fate : Fate) (fates : List Fate) :
    acceptedOf (fate :: fates) = acceptedOf [fate] ++ acceptedOf fates := by
  cases fate <;> rfl

theorem namesOf_cons (fate : Fate) (fates : List Fate) :
    namesOf (fate :: fates) = namesOf [fate] ++ namesOf fates := by
  cases fate <;> rfl

/-- Adding a chunk adds what its fate is. -/
theorem addChunk_eq (draft : SchemaDraft) (index : Nat) (chunk : Text) :
    addChunk draft index chunk =
      let fate := Fate.ofChunk (draft.tables.map (·.name)) chunk
      ({ draft with
        tables := draft.tables ++ (acceptedOf [fate]).map TableBody.toTable
        structural := draft.structural ++ (acceptedOf [fate]).flatMap (·.share.relationships) },
        fate.warnings index) := by
  rw [addChunk, Fate.ofChunk]
  cases TableBody.ofChunk chunk with
  | error reason => simp [Fate.warnings]
  | ok body =>
      have hholds : draft.holds body.name = true ↔ body.name ∈ draft.tables.map (·.name) := by
        rw [SchemaDraft.holds_iff, List.mem_map]
      by_cases hheld : body.name ∈ draft.tables.map (·.name)
      · simp only [hholds.2 hheld, hheld, if_true]
        simp [Fate.warnings]
      · simp only [hheld, if_false, hholds, tableOf_eq]
        simp [Fate.warnings, SchemaDraft.withTable]

/-- Adding chunks adds what their fates are, one after the other. -/
theorem addChunks_eq (draft : SchemaDraft) (index : Nat) (chunks : List Text) :
    addChunks draft index chunks =
      let fates := fatesOf (draft.tables.map (·.name)) chunks
      ({ draft with
        tables := draft.tables ++ (acceptedOf fates).map TableBody.toTable
        structural := draft.structural ++ (acceptedOf fates).flatMap (·.share.relationships) },
        warningsOf index fates) := by
  induction chunks generalizing draft index with
  | nil => simp [addChunks, fatesOf, warningsOf]
  | cons chunk rest ih =>
      have hnames : ∀ fate,
          (draft.tables ++ (acceptedOf [fate]).map TableBody.toTable).map (·.name) =
            draft.tables.map (·.name) ++ namesOf [fate] := by
        intro fate
        rw [List.map_append, List.map_map]
        rfl
      rw [addChunks, addChunk_eq]
      simp only [ih, hnames, fatesOf]
      rw [acceptedOf_cons _ (fatesOf _ rest)]
      simp only [List.map_append, List.flatMap_append, List.append_assoc, warningsOf,
        List.zipIdx_cons, List.flatMap_cons]

theorem length_fatesOf (names chunks : List Text) :
    (fatesOf names chunks).length = chunks.length := by
  induction chunks generalizing names with
  | nil => rfl
  | cons chunk rest ih => rw [fatesOf, List.length_cons, List.length_cons, ih]

/-- The fate of a chunk is decided by the names accepted before it. -/
theorem getElem?_fatesOf (names chunks : List Text) (i : Nat) : (fatesOf names chunks)[i]? =
    chunks[i]?.map (Fate.ofChunk (names ++ namesOf ((fatesOf names chunks).take i))) := by
  induction chunks generalizing names i with
  | nil => simp [fatesOf]
  | cons chunk rest ih =>
      cases i with
      | zero => simp [fatesOf, namesOf]
      | succ i =>
          rw [fatesOf, List.getElem?_cons_succ, List.getElem?_cons_succ, List.take_succ_cons, ih,
            namesOf_cons _ (List.take i _), List.append_assoc]

/-- No two accepted chunks have the same name. -/
theorem nodup_namesOf_fatesOf (h : names.Nodup) :
    (names ++ namesOf (fatesOf names chunks)).Nodup := by
  induction chunks generalizing names with
  | nil => simpa [fatesOf, namesOf] using h
  | cons chunk rest ih =>
      have hnext : (names ++ namesOf [Fate.ofChunk names chunk]).Nodup := by
        cases hfate : Fate.ofChunk names chunk with
        | accepted body =>
            have hnew := (Fate.ofChunk_eq_accepted_iff.1 hfate).2
            have hconcat := List.Nodup.concat hnew h
            rwa [List.concat_eq_append] at hconcat
        | _ => simpa [namesOf] using h
      rw [fatesOf, namesOf_cons _ (fatesOf _ rest), ← List.append_assoc]
      exact ih hnext

/-- A name is accepted among the first chunks exactly if one of them is accepted under it. -/
theorem mem_namesOf_take {i : Nat} {name : Text} : name ∈ namesOf (fates.take i) ↔
    ∃ j < i, ∃ body, fates[j]? = some (.accepted body) ∧ body.name = name := by
  have hbody : ∀ fate body, Fate.body? fate = some body ↔ fate = .accepted body := by
    intro fate body
    cases fate <;> simp [Fate.body?]
  simp only [namesOf, acceptedOf, List.mem_map, List.mem_filterMap, hbody]
  constructor
  · rintro ⟨body, ⟨fate, hmem, rfl⟩, hname⟩
    obtain ⟨j, hj⟩ := List.mem_iff_getElem?.1 hmem
    rw [List.getElem?_take] at hj
    split at hj
    · rename_i hlt
      exact ⟨j, hlt, body, hj, hname⟩
    · exact nomatch hj
  · rintro ⟨j, hj, body, hfate, hname⟩
    refine ⟨body, ⟨_, List.mem_iff_getElem?.2 ⟨j, ?_⟩, rfl⟩, hname⟩
    rw [List.getElem?_take, if_pos hj, hfate]

def acceptedNumbers (fates : List Fate) : List Nat :=
  (fates.zipIdx.filter (·.1.body?.isSome)).map (·.2)

/-- The warnings with a number are those about the chunks that were not accepted. -/
theorem filterMap_number?_warningsOf (index : Nat) (fates : List Fate) :
    (warningsOf index fates).filterMap Warning.number? =
      ((fates.zipIdx index).filter (!·.1.body?.isSome)).map (·.2) := by
  have hshare : ∀ body : TableBody, body.share.warnings.filterMap Warning.number? = [] := by
    intro body
    refine List.filterMap_eq_nil_iff.2 fun warning hmem => ?_
    obtain ⟨text, rfl⟩ := exists_of_mem_warnings hmem
    rfl
  induction fates generalizing index with
  | nil => rfl
  | cons fate rest ih =>
      rw [warningsOf, List.zipIdx_cons, List.flatMap_cons, List.filterMap_append, ← warningsOf, ih]
      cases fate <;> simp [Fate.warnings, Fate.body?, Warning.number?, hshare]

theorem manualOf_eq (bodies : List Text) :
    manualOf bodies = (bodies.map answerOf).filterMap Sum.getLeft? := by
  induction bodies with
  | nil => rfl
  | cons body rest ih =>
      rw [manualOf] at ih ⊢
      rw [List.map_cons, answerOf]
      cases hbody : Directive.ofBody? body with
      | some directive => rw [List.filterMap_cons_some hbody, List.map_cons, ih]; rfl
      | none => rw [List.filterMap_cons_none hbody, ih]; rfl

theorem unreadOf_eq (bodies : List Text) :
    unreadOf bodies = (bodies.map answerOf).filterMap Sum.getRight? := by
  induction bodies with
  | nil => rfl
  | cons body rest ih =>
      rw [unreadOf] at ih ⊢
      rw [List.map_cons, answerOf]
      cases hbody : Directive.ofBody? body with
      | some directive => rw [List.filter_cons_of_neg (by simp [hbody]), ih]; rfl
      | none => rw [List.filter_cons_of_pos (by simp [hbody]), List.map_cons, ih]; rfl

/-- A reading by the fates of its chunks. -/
theorem ofParts_eq_fatesOf (chunks bodies : List Text) : ofParts chunks bodies =
    ⟨⟨(acceptedOf (fatesOf [] chunks)).map TableBody.toTable,
      (acceptedOf (fatesOf [] chunks)).flatMap (·.share.relationships) ++ manualOf bodies⟩,
      warningsOf 0 (fatesOf [] chunks) ++ unreadOf bodies⟩ := by
  rw [ofParts_eq, addChunks_eq]
  rfl

/-- The account of a reading of chunks and directives, in terms of the fates of the chunks. -/
structure Accounts (chunks bodies : List Text) (fates : List Fate) (r : Reading) : Prop where
  /-- Each chunk has one fate. -/
  length : fates.length = chunks.length
  /-- A chunk is malformed exactly if it cannot be read. -/
  malformed (i : Nat) (reason : TableBody.Fault) : fates[i]? = some (.malformed reason) ↔
    ∃ chunk, chunks[i]? = some chunk ∧ TableBody.ofChunk chunk = .error reason
  /-- A chunk is repeated exactly if it can be read and has the name of one accepted before. -/
  repeated (i : Nat) (name : Text) : fates[i]? = some (.repeated name) ↔
    ∃ chunk body, chunks[i]? = some chunk ∧ TableBody.ofChunk chunk = .ok body ∧ body.name = name ∧
      ∃ j < i, ∃ earlier, fates[j]? = some (.accepted earlier) ∧ earlier.name = name
  /-- A chunk is accepted exactly if it can be read and has a name of its own. -/
  accepted (i : Nat) (body : TableBody) : fates[i]? = some (.accepted body) ↔
    ∃ chunk, chunks[i]? = some chunk ∧ TableBody.ofChunk chunk = .ok body ∧
      ∀ j < i, ∀ earlier, fates[j]? = some (.accepted earlier) → earlier.name ≠ body.name
  /-- Each number is that of an accepted chunk or that of one warning. -/
  numbers : (acceptedNumbers fates ++ r.warnings.filterMap Warning.number?).Perm
    (List.range chunks.length)
  tables : r.schema.tables = (acceptedOf fates).map TableBody.toTable
  nodup : r.schema.tableNames.Nodup
  /-- Each line of an accepted chunk has a share of one kind. -/
  lines : ∀ body ∈ acceptedOf fates, List.Forall₂ (Yields body.name) body.declarations
    (sharesOf body.name body.declarations)
  /-- Each directive has an answer of one kind. -/
  directives : List.Forall₂ Answers bodies (bodies.map answerOf)
  /-- Directives are answered one by one, behind the chunks. -/
  relationships : r.schema.relationships = (acceptedOf fates).flatMap (·.share.relationships) ++
    (bodies.map answerOf).filterMap Sum.getLeft?
  warnings : r.warnings = warningsOf 0 fates ++ (bodies.map answerOf).filterMap Sum.getRight?

theorem accounts_ofParts (chunks bodies : List Text) :
    Accounts chunks bodies (fatesOf [] chunks) (ofParts chunks bodies) := by
  have hfate : ∀ i fate, (fatesOf [] chunks)[i]? = some fate ↔ ∃ chunk, chunks[i]? = some chunk ∧
      Fate.ofChunk (namesOf ((fatesOf [] chunks).take i)) chunk = fate := by
    intro i fate
    rw [getElem?_fatesOf, List.nil_append, Option.map_eq_some_iff]
  rw [ofParts_eq_fatesOf, manualOf_eq, unreadOf_eq]
  constructor
  case length => exact length_fatesOf [] chunks
  case malformed =>
    intro i reason
    simp only [hfate, Fate.ofChunk_eq_malformed_iff]
  case repeated =>
    intro i name
    rw [hfate]
    simp only [Fate.ofChunk_eq_repeated_iff, mem_namesOf_take, exists_and_left]
  case accepted =>
    intro i body
    rw [hfate]
    simp only [Fate.ofChunk_eq_accepted_iff, mem_namesOf_take]
    grind
  case numbers =>
    have hanswers :
        ((bodies.map answerOf).filterMap Sum.getRight?).filterMap Warning.number? = [] := by
      rw [← unreadOf_eq, unreadOf]
      simp [Warning.number?]
    rw [List.filterMap_append, hanswers, List.append_nil, filterMap_number?_warningsOf,
      acceptedNumbers, ← List.map_append]
    refine ((List.filter_append_perm _ _).map _).trans ?_
    rw [List.zipIdx_map_snd, length_fatesOf, List.range_eq_range']
  case tables => rfl
  case nodup =>
    have hnodup : ([] ++ namesOf (fatesOf [] chunks)).Nodup :=
      nodup_namesOf_fatesOf List.nodup_nil
    rw [Schema.tableNames, List.map_map]
    exact hnodup
  case lines =>
    intro body _
    rw [sharesOf, List.forall₂_map_right_iff, List.forall₂_same]
    exact fun line _ => yields_ofText body.name line
  case directives =>
    rw [List.forall₂_map_right_iff, List.forall₂_same]
    exact fun body _ => answers_answerOf body
  case relationships => rfl
  case warnings => rfl

/-- Nothing of a text is dropped without a trace. -/
theorem accounts_ofText? {marks : List Text} {t : Text} {r : Reading}
    (h : ofText? marks t = some r) :
    Accounts (Statement.chunks (Cleaned.ofText marks t).text) (Cleaned.ofText marks t).directives
      (fatesOf [] (Statement.chunks (Cleaned.ofText marks t).text)) r := by
  obtain ⟨-, rfl⟩ := ofText?_eq_some_iff.1 h
  exact accounts_ofParts _ _

/-- A text with chunks of every fate, a column without a type, and directives of both kinds. -/
def mixed : Text :=
  ("CREATE TABLE a (x INT REFERENCES b, y)\n-- diagram: a\nCREATE TABLE (z)\n" ++
    "-- diagram: a 1 b\nCREATE TABLE a (w INT)").toList

theorem accounts_ofText?_mixed : ∃ r, ofText? Directive.defaultMarks mixed = some r ∧
    r.schema.tableNames = [['a']] ∧
    r.warnings = [.declarationUnknown ['a'] ['y'], .statementSkipped 1 .noName,
      .tableRepeated 2 ['a'], .directiveUnknown ['a']] ∧
    Accounts (Statement.chunks (Cleaned.ofText Directive.defaultMarks mixed).text)
      (Cleaned.ofText Directive.defaultMarks mixed).directives
      (fatesOf [] (Statement.chunks (Cleaned.ofText Directive.defaultMarks mixed).text)) r := by
  have hread : (ofText? Directive.defaultMarks mixed).map
      (fun r => (r.schema.tableNames, r.warnings)) =
        some ([['a']], [.declarationUnknown ['a'] ['y'], .statementSkipped 1 .noName,
          .tableRepeated 2 ['a'], .directiveUnknown ['a']]) := by decide +kernel
  obtain ⟨r, hr, hparts⟩ := Option.map_eq_some_iff.1 hread
  obtain ⟨hnames, hwarnings⟩ := Prod.mk.inj hparts
  exact ⟨r, hr, hnames, hwarnings, accounts_ofText? hr⟩

end Reading
end DdlDiagram
