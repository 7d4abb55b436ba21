import DdlDiagram.Proofs.Cleaned.Lines
import DdlDiagram.Proofs.Reading.Parts

/-!
# Inserted directive lines

Whatever a directive is made of, the first line that is written for it is found to be a directive.
So where it is inserted in front of a line, tables and structural relationships stay as they are,
provided that nothing is written behind that line. A line feed in one of its parts ends the line
early, and what stands behind the feed is read as part of the text.
-/

namespace DdlDiagram

variable {s t : Text} {d : Directive}

namespace Directive

/-- The lines behind the first one that a directive is written in. -/
def laterLines (d : Directive) : Text := (d.toLine ++ ['\n']).lines.tail.flatten

/-- The first line that is written for a directive marks its text as one. -/
theorem exists_toLine_append_feed (d : Directive) : ∃ line body, '\n' ∉ line ∧
    bodyOfLine? defaultMarks line = some body ∧
    d.toLine ++ ['\n'] = line ++ '\n' :: d.laterLines := by
  have hmem : '\n' ∈ ' ' :: d.body ++ ['\n'] := by simp
  obtain ⟨front, later, hfeed, hfront⟩ := List.eq_append_cons_of_mem hmem
  have hmark : '\n' ∉ defaultMark := by decide
  let line := '-' :: '-' :: (' ' :: (defaultMark ++ ':' :: front))
  have hline : '\n' ∉ line := by simp [line, hmark, hfront]
  have hsplit : d.toLine ++ ['\n'] = line ++ '\n' :: later := by
    simpa [toLine_eq, line] using hfeed
  refine ⟨line, Text.trim front, hline, bodyOfLine?_defaultMark front, ?_⟩
  rw [laterLines, hsplit, Text.lines_append_feed hline, List.tail_cons, Text.flatten_lines]

theorem laterLines_eq_nil_iff (d : Directive) : d.laterLines = [] ↔ d.IsSingleLine := by
  obtain ⟨line, body, hline, -, hsplit⟩ := d.exists_toLine_append_feed
  rw [← feed_not_mem_toLine_iff]
  constructor
  · intro hnil
    rw [hnil] at hsplit
    rwa [List.append_cancel_right hsplit]
  · intro hsingle
    rw [laterLines, Text.lines_append_feed hsingle]
    rfl

end Directive

namespace Reading

variable {marks : List Text}

/-- The tables and the structural relationships that a text declares. -/
def declared? (marks : List Text) (t : Text) : Option (List Table × List Relationship) :=
  (ofText? marks t).map fun r => (r.schema.tables, r.schema.ofOrigin .structural)

/-- Directives have no part in what a text declares. -/
theorem declared?_congr (h : (Cleaned.ofText marks t).text = (Cleaned.ofText marks s).text) :
    declared? marks t = declared? marks s := by
  have hdeclared : ∀ t, declared? marks t =
      if (Statement.chunks (Cleaned.ofText marks t).text).isEmpty then none else
        some ((addChunks .empty 0 (Statement.chunks (Cleaned.ofText marks t).text)).1.tables,
          (addChunks .empty 0 (Statement.chunks (Cleaned.ofText marks t).text)).1.structural) := by
    intro t
    rw [declared?, ofText?]
    split
    · rfl
    · rw [Option.map_some, ofOrigin_structural_ofParts, ofParts_eq]
  rw [hdeclared, hdeclared, h]

/-- Where a directive is inserted in front of a line, nothing of its first line is kept. -/
theorem text_ofText_inserted (hs : s.EndsLine)
    (hplace : (Cleaned.ofText Directive.defaultMarks s).place ≠ .blockComment)
    (d : Directive) (t : Text) :
    (Cleaned.ofText Directive.defaultMarks (s ++ d.toLine ++ '\n' :: t)).text =
      (Cleaned.ofText Directive.defaultMarks (s ++ d.laterLines ++ t)).text := by
  obtain ⟨line, body, hline, hbody, hsplit⟩ := d.exists_toLine_append_feed
  have hinserted : s ++ d.toLine ++ '\n' :: t = s ++ (line ++ '\n' :: (d.laterLines ++ t)) := by
    rw [List.append_cons, List.append_assoc s, hsplit]
    simp
  rw [hinserted, List.append_assoc, Cleaned.ofText_append _ hs hplace,
    Cleaned.ofText_append _ hs hplace, Cleaned.ofText_directive_append hline hbody]
  simp only [Cleaned.append]

/-- Where a directive is inserted in front of a line, the text declares the same as with nothing
but the lines that the directive has behind its first one. A directive that is a single line
changes nothing in what the text declares. -/
theorem declared?_inserted (hs : s.EndsLine)
    (hplace : (Cleaned.ofText Directive.defaultMarks s).place ≠ .blockComment)
    (d : Directive) (t : Text) :
    declared? Directive.defaultMarks (s ++ d.toLine ++ '\n' :: t) =
      declared? Directive.defaultMarks (s ++ d.laterLines ++ t) ∧
    (d.IsSingleLine → declared? Directive.defaultMarks (s ++ d.toLine ++ '\n' :: t) =
      declared? Directive.defaultMarks (s ++ t)) := by
  have hsame := declared?_congr (text_ofText_inserted hs hplace d t)
  refine ⟨hsame, ?_⟩
  intro hsingle
  rw [hsame, d.laterLines_eq_nil_iff.2 hsingle, List.append_nil]

/-- A directive of a single line that is none that can be read: its parts have blanks, quotes and
marks of comments, and its label is a statement. -/
def hostile : Directive :=
  ⟨"a);' --".toList, [], "`b /*".toList, "\"; CREATE TABLE c (d INT);\n".toList⟩

/-- A directive with a statement behind a line feed in its source. -/
def injecting : Directive :=
  ⟨"a\nCREATE TABLE t (x INT);--".toList, "1".toList, "b".toList, []⟩

/-- A text in the middle of a table, where a quote and a parenthesis are open. -/
def halfTable : Text := "CREATE TABLE a (x INT REFERENCES b, '\n".toList

theorem declared?_halfTable_inserted :
    declared? Directive.defaultMarks (halfTable ++ hostile.toLine ++ '\n' :: "y INT);".toList) =
      declared? Directive.defaultMarks (halfTable ++ "y INT);".toList) ∧
    declared? Directive.defaultMarks (halfTable ++ injecting.toLine ++ '\n' :: "y INT);".toList) =
      declared? Directive.defaultMarks (halfTable ++
        "CREATE TABLE t (x INT);-- 1 b : \"\"\n".toList ++ "y INT);".toList) := by
  have hends : halfTable.EndsLine := .inr (by decide)
  have hplace : (Cleaned.ofText Directive.defaultMarks halfTable).place ≠ .blockComment := by
    decide +kernel
  have hsingle : hostile.IsSingleLine := by decide +kernel
  have hlater : injecting.laterLines = "CREATE TABLE t (x INT);-- 1 b : \"\"\n".toList := by
    decide +kernel
  rw [← hlater]
  exact ⟨(declared?_inserted hends hplace hostile _).2 hsingle,
    (declared?_inserted hends hplace injecting _).1⟩

/-- A directive of several lines can declare tables. -/
theorem declared?_inserted_ne : ¬ ∀ (d : Directive) (s t : Text), s.EndsLine →
    (Cleaned.ofText Directive.defaultMarks s).place ≠ .blockComment →
    declared? Directive.defaultMarks (s ++ d.toLine ++ '\n' :: t) =
      declared? Directive.defaultMarks (s ++ t) := by
  intro h
  have hempty := h injecting [] [] Text.endsLine_nil (by decide)
  exact absurd hempty (by decide +kernel)

end Reading
end DdlDiagram
