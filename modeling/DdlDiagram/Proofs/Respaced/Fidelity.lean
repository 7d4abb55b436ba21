import DdlDiagram.Proofs.Cleaned.CommentFree
import DdlDiagram.Proofs.Respaced.Declaration
import DdlDiagram.Proofs.Respaced.Layout

/-!
# The diagram of a layout

A layout respaces its text, the chunks of respaced texts are respaced, and a tidy chunk adds the
same to a draft as any chunk that it is respaced to. So a tidy text and its layout have the same
diagram. That the text is tidy cannot be left out: a layout separates what stood together, and
changes gaps within names.
-/

namespace DdlDiagram

open Layout

variable {t chunk chunk' : Text}

namespace Reading

/-- Respaced chunks that declare the same add the same. -/
theorem sameChunk_of_sameBody {head : Text}
    (h : SameBody head (TableBody.ofChunk chunk) (TableBody.ofChunk chunk'))
    (htidy : ∀ body, TableBody.ofChunk chunk = .ok body →
      isTidyHead body.name head = true ∧ body.declarations.all isTidyDeclaration = true) :
    SameChunk chunk chunk' := by
  intro schema schema' index hschema
  rw [addChunk, addChunk]
  generalize hread : TableBody.ofChunk chunk = read at h ⊢
  generalize TableBody.ofChunk chunk' = read' at h ⊢
  cases h with
  | error fault => exact hschema
  | @ok body body' hsame =>
      obtain ⟨hhead, hdeclarations⟩ := htidy body hread
      obtain ⟨hname, hlines⟩ := hsame hhead
      have hholds : schema'.holds body'.name = schema.holds body.name := by
        rw [hname, ← SchemaDraft.holds_outline, hschema, SchemaDraft.holds_outline]
      have houtlines : List.Forall₂ (fun line line' => (Declaration.ofText line').outline =
          (Declaration.ofText line).outline) body.declarations body'.declarations := by
        obtain ⟨hlength, hpairs⟩ := List.forall₂_iff_zip.1 hlines
        refine List.forall₂_iff_zip.2 ⟨hlength, fun hmem => ?_⟩
        exact (hpairs hmem).outline_ofText
          (List.all_eq_true.1 hdeclarations _ (List.of_mem_zip hmem).1)
      simp only [hholds]
      split
      · exact hschema
      · rw [SchemaDraft.outline_withTable, SchemaDraft.outline_withTable, hschema,
          outline_tableOf hname houtlines]

/-- A tidy chunk adds the same as any chunk that it is respaced to. -/
theorem sameChunk_of_respaced {s : Nesting} {p : Option Char}
    (h : Respaced textRule s p chunk chunk') (hs : s.quote = none)
    (htidy : isTidyChunk chunk = true) : SameChunk chunk chunk' := by
  refine sameChunk_of_sameBody (h.ofChunk hs) fun body hbody => ?_
  rw [isTidyChunk, hbody] at htidy
  exact (Bool.and_eq_true _ _).mp htidy

/-- Without comments the reading of a text is that of its chunks. -/
theorem ofText?_of_unmarked (h : Cleaned.Unmarked none t) (marks : List Text) :
    ofText? marks t =
      if (Statement.chunks t).isEmpty then none else some (ofParts (Statement.chunks t) []) := by
  obtain ⟨htext, hdirectives⟩ := h.ofText_eq marks
  rw [ofText?, htext, hdirectives]

theorem outline_ofParts {chunks chunks' : List Text} (h : List.Forall₂ SameChunk chunks chunks') :
    (ofParts chunks' []).schema.outline = (ofParts chunks []).schema.outline :=
  have hdrafts : (addChunks .empty 0 chunks').1.outline = (addChunks .empty 0 chunks).1.outline :=
    outline_addChunks h 0 rfl
  congrArg SchemaDraft.toSchema hdrafts

/-- A tidy text without comments and each of its layouts have the same outline, or both none. -/
theorem outline_ofText?_format (hfree : ∀ token ∈ tokens t, token.isComment = false)
    (htidy : isTidy t = true) (indent : Nat) (marks : List Text) :
    (ofText? marks (t.format indent)).map (·.schema.outline) =
      (ofText? marks t).map (·.schema.outline) := by
  obtain ⟨hquotes, hchunks⟩ := (Bool.and_eq_true _ _).mp htidy
  have hunmarked := Cleaned.unmarked_of_quotesTidy hfree hquotes
  have hunmarked' := Cleaned.unmarked_of_quotesTidy (forall_isComment_format hfree indent)
    (quotesTidy_format hquotes indent)
  have hrespaced := (Respaced.format t hfree indent).chunks
  have hsame : List.Forall₂ SameChunk (Statement.chunks t) (Statement.chunks (t.format indent)) := by
    obtain ⟨hlength, hpairs⟩ := List.forall₂_iff_zip.1 hrespaced
    refine List.forall₂_iff_zip.2 ⟨hlength, fun hmem => ?_⟩
    obtain ⟨s, p, hs, hchunk⟩ := hpairs hmem
    exact sameChunk_of_respaced hchunk hs (List.all_eq_true.1 hchunks _ (List.of_mem_zip hmem).1)
  have hempty : (Statement.chunks (t.format indent)).isEmpty = (Statement.chunks t).isEmpty := by
    rw [Bool.eq_iff_iff, List.isEmpty_iff_length_eq_zero, List.isEmpty_iff_length_eq_zero,
      hsame.length_eq]
  rw [ofText?_of_unmarked hunmarked, ofText?_of_unmarked hunmarked', hempty]
  split
  · rfl
  · exact congrArg some (outline_ofParts hsame)

/-- A layout of a tidy text without comments declares what the text declares: the outlines are the
same, and so are the diagrams, or neither text declares a table. -/
theorem diagram_ofText?_format (hfree : ∀ token ∈ tokens t, token.isComment = false)
    (htidy : isTidy t = true) (indent : Nat) (marks : List Text) :
    (ofText? marks (t.format indent)).map (·.schema.outline) =
        (ofText? marks t).map (·.schema.outline) ∧
      (ofText? marks (t.format indent)).map (·.schema.diagram) =
        (ofText? marks t).map (·.schema.diagram) := by
  have houtline := outline_ofText?_format hfree htidy indent marks
  have hdiagram : ∀ reading? : Option Reading, reading?.map (·.schema.diagram) =
      (reading?.map (·.schema.outline)).map Schema.diagram := by
    intro reading?
    cases reading? with
    | none => rfl
    | some reading => exact congrArg some reading.schema.diagram_outline.symm
  refine ⟨houtline, ?_⟩
  rw [hdiagram, hdiagram, houtline]

/-- A text that a layout changes in almost all of its gaps. -/
def ragged : Text :=
  "create table t(a INT(1) ,b  VARCHAR( 3 )\nNOT NULL,PRIMARY KEY(a) ,".toList ++
    "FOREIGN KEY ( b ) REFERENCES [u]( c ))create table u ( c INT )".toList

theorem diagram_ofText?_format_ragged :
    (∀ token ∈ tokens ragged, token.isComment = false) ∧ isTidy ragged = true ∧
      (ofText? Directive.defaultMarks (ragged.format 4)).map (·.schema.outline) =
        (ofText? Directive.defaultMarks ragged).map (·.schema.outline) ∧
      (ofText? Directive.defaultMarks (ragged.format 4)).map (·.schema.diagram) =
        (ofText? Directive.defaultMarks ragged).map (·.schema.diagram) := by
  have hfree : ∀ token ∈ tokens ragged, token.isComment = false := by decide +kernel
  have htidy : isTidy ragged = true := by decide +kernel
  exact ⟨hfree, htidy, diagram_ofText?_format hfree htidy 4 Directive.defaultMarks⟩

/-- Texts that miss one part of tidiness each: quotes hide a mark on their second line, a quote is
open in front of the body, a name in brackets has two blanks, a gap at top level comes or goes, a
quoted `(` opens a group, or a name has gaps of its own. A gap that comes matters in the type, in
the words behind it, between the clauses of a key, and in a clause that is passed over, where it
brings out the keyword of another clause. -/
def untidy : List Text := [
  "CREATE TABLE t (a '\n--', b INT,\n' INT)".toList,
  "CREATE TABLE t 'x(' b , c ' INT)".toList,
  "CREATE TABLE [a  b] (c INT)".toList,
  "CREATE TABLE t (a INT(1)x)".toList,
  "CREATE TABLE t (a INT DEFAULT (1)PRIMARY KEY)".toList,
  "CREATE TABLE t (a INT, FOREIGN KEY (a)REFERENCES u)".toList,
  "CREATE TABLE t (a INT, CONSTRAINT c CHECK (x)PRIMARY KEY (a))".toList,
  "CREATE TABLE t (a;b INT)".toList,
  "CREATE TABLE t (a INT REFERENCES \"u(\"(b , c))".toList,
  "CREATE TABLE t (FOREIGN KEY '('( ')' ) REFERENCES u)".toList,
  "CREATE TABLE t (a( b ) INT)".toList,
  "CREATE TABLE t (FOREIGN KEY (a  b) REFERENCES u)".toList]

/-- That the text is tidy cannot be left out. -/
theorem diagram_format_ne : List.Forall (fun t : Text =>
    (∀ token ∈ tokens t, token.isComment = false) ∧
      (ofText? Directive.defaultMarks (t.format 4)).map (·.schema.diagram) ≠
        (ofText? Directive.defaultMarks t).map (·.schema.diagram)) untidy := by
  decide +kernel

end Reading
end DdlDiagram
