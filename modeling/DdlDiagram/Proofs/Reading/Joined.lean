import DdlDiagram.Proofs.Cleaned.Lines
import DdlDiagram.Proofs.Reading.Parts
import DdlDiagram.Proofs.Statement.Seam

/-!
# Readings of joined texts

Two texts with a line feed between them are read as each on its own, provided that the first one
leaves nothing open and the second one starts with a table. A directive in a line of its own adds
one relationship to what the text around it is read as, whatever that text is.
-/

namespace DdlDiagram
namespace Reading

variable {marks : List Text} {s t : Text} {r r' : Reading}

/-- Texts with a line feed between them are read apart if the first one ends outside of block
comments, its cleaned text outside of quoted runs, and the cleaned text of the second one starts
with a boundary, and if no table of the second one has the name of one of the first. -/
theorem ofText?_append_feed (hplace : (Cleaned.ofText marks s).place ≠ .blockComment)
    (hquote : Quote.afterText none (Cleaned.ofText marks s).text = none)
    (hstart : (Statement.behindHeader? (Cleaned.ofText marks t).text.trimStart).isSome = true)
    (hs : ofText? marks s = some r) (ht : ofText? marks t = some r')
    (hnew : ∀ table ∈ r.schema.tables, ∀ table' ∈ r'.schema.tables, table'.name ≠ table.name) :
    ofText? marks (s ++ '\n' :: t) =
      some (r.append (Statement.chunks (Cleaned.ofText marks s).text).length r') := by
  obtain ⟨g, hcleaned, hg⟩ := Cleaned.ofText_append_feed hplace t
  obtain ⟨hne, rfl⟩ := ofText?_eq_some_iff.1 hs
  obtain ⟨-, rfl⟩ := ofText?_eq_some_iff.1 ht
  obtain ⟨front, hchunks, hfront⟩ := Statement.chunks_append_of_endsLine hstart hquote hg
  have hlength := congrArg List.length hfront
  rw [List.length_map, List.length_map] at hlength
  rw [ofText?_eq_some_iff, hcleaned, hchunks]
  have hsame := ofParts_congr hfront (Cleaned.ofText marks s).directives
  rw [← hsame] at hnew ⊢
  refine ⟨?_, ?_⟩
  · rw [Ne, List.append_eq_nil_iff, ← List.length_eq_zero_iff, hlength, List.length_eq_zero_iff]
    exact fun hnil => hne hnil.1
  · rw [ofParts_append hnew, hlength]

/-- A text with a directive that cannot be read, and a table that is not finished. -/
def unfinished : Text := "CREATE TABLE a (x INT)\n-- diagram: a\nCREATE TABLE b (y,".toList

/-- A text with a directive in front of its first table, which it has twice. -/
def repeating : Text := "-- mermaid: d 1 a\n CREATE TABLE d (z)CREATE TABLE d ()".toList

theorem ofText?_unfinished_append_repeating :
    ∃ r r', ofText? Directive.defaultMarks unfinished = some r ∧
      ofText? Directive.defaultMarks repeating = some r' ∧
      (∀ table ∈ r.schema.tables, ∀ table' ∈ r'.schema.tables, table'.name ≠ table.name) ∧
      ofText? Directive.defaultMarks (unfinished ++ '\n' :: repeating) = some (r.append 2 r') := by
  have hread : (ofText? Directive.defaultMarks unfinished).isSome = true ∧
      (ofText? Directive.defaultMarks repeating).isSome = true := by decide +kernel
  obtain ⟨r, hr⟩ := Option.isSome_iff_exists.1 hread.1
  obtain ⟨r', hr'⟩ := Option.isSome_iff_exists.1 hread.2
  have hnames : ∀ r ∈ ofText? Directive.defaultMarks unfinished,
      ∀ r' ∈ ofText? Directive.defaultMarks repeating, ∀ table ∈ r.schema.tables,
        ∀ table' ∈ r'.schema.tables, table'.name ≠ table.name := by decide +kernel
  have hlength : (Statement.chunks (Cleaned.ofText Directive.defaultMarks unfinished).text).length =
      2 := by decide +kernel
  refine ⟨r, r', hr, hr', hnames r hr r' hr', ?_⟩
  rw [← hlength]
  exact ofText?_append_feed (by decide +kernel) (by decide +kernel) (by decide +kernel) hr hr'
    (hnames r hr r' hr')

section

variable {d : Directive} (hd : d.IsWritable) (bodies : List Text)
include hd

/-- A written directive is read as the relationship it was written for. -/
theorem manualOf_body_cons : manualOf (d.body :: bodies) =
    ⟨d.source, d.target, d.cardinality, d.label.trim, .manual⟩ :: manualOf bodies := by
  rw [manualOf, List.filterMap_cons_some hd.ofBody?_body]
  rfl

theorem unreadOf_body_cons : unreadOf (d.body :: bodies) = unreadOf bodies := by
  rw [unreadOf, List.filter_cons_of_neg (by simp [hd.ofBody?_body])]
  rfl

end

/-- A directive that is written in a line of its own adds one manual relationship, behind those of
the directives before it and in front of those of the directives behind it. The rest of the
reading is that of the text without the line. -/
theorem ofText?_directive_line {d : Directive} (hd : d.IsWritable) (hs : s.EndsLine)
    (hplace : (Cleaned.ofText Directive.defaultMarks s).place ≠ .blockComment) (t : Text) :
    (ofText? Directive.defaultMarks (s ++ d.toLine ++ '\n' :: t) = none ↔
      ofText? Directive.defaultMarks (s ++ t) = none) ∧
    ∀ r, ofText? Directive.defaultMarks (s ++ t) = some r →
      r.schema.relationships = r.schema.ofOrigin .structural ++
        (manualOf (Cleaned.ofText Directive.defaultMarks s).directives ++
          manualOf (Cleaned.ofText Directive.defaultMarks t).directives) ∧
      ofText? Directive.defaultMarks (s ++ d.toLine ++ '\n' :: t) = some
        { schema :=
            { tables := r.schema.tables
              relationships := r.schema.ofOrigin .structural ++
                (manualOf (Cleaned.ofText Directive.defaultMarks s).directives ++
                  ⟨d.source, d.target, d.cardinality, d.label.trim, .manual⟩ ::
                    manualOf (Cleaned.ofText Directive.defaultMarks t).directives) }
          warnings := r.warnings } := by
  have hwithout := Cleaned.ofText_append Directive.defaultMarks hs hplace t
  have hwith := Cleaned.ofText_append Directive.defaultMarks hs hplace (d.toLine ++ '\n' :: t)
  rw [Cleaned.ofText_directive_append hd.feed_not_mem_toLine hd.bodyOfLine?_toLine,
    ← List.append_assoc] at hwith
  have htext : (Cleaned.ofText Directive.defaultMarks (s ++ d.toLine ++ '\n' :: t)).text =
      (Cleaned.ofText Directive.defaultMarks (s ++ t)).text := by rw [hwith, hwithout]; rfl
  constructor
  · rw [ofText?, ofText?, htext]
    simp
  · intro r hr
    obtain ⟨hne, rfl⟩ := ofText?_eq_some_iff.1 hr
    rw [ofOrigin_structural_ofParts, ofText?_eq_some_iff, htext]
    refine ⟨?_, hne, ?_⟩
    · rw [ofParts_eq, hwithout]
      simp [Cleaned.append, manualOf_append]
    · rw [ofParts_eq, ofParts_eq, hwith, hwithout]
      simp [Cleaned.append, manualOf_append, unreadOf_append, manualOf_body_cons hd,
        unreadOf_body_cons hd]

/-- A directive with a label that has a colon, a quote, a comment mark and blanks around it. -/
def awkward : Directive :=
  ⟨"b".toList, "|o--o|".toList, "'a".toList, " \"is: -- /* not ".toList⟩

/-- A text in the middle of a table, where a quote and a parenthesis are open. -/
def interrupted : Text := "CREATE TABLE a (x, '\n-- diagram: a 1 b\n".toList

def resumed : Text := "-- diagram: b 1 c\n);".toList

theorem ofText?_interrupted_by_awkward : ∃ r,
    ofText? Directive.defaultMarks (interrupted ++ resumed) = some r ∧
    ofText? Directive.defaultMarks (interrupted ++ awkward.toLine ++ '\n' :: resumed) = some
      { schema :=
          { tables := r.schema.tables
            relationships := r.schema.ofOrigin .structural ++
              (manualOf ["a 1 b".toList] ++
                ⟨awkward.source, awkward.target, awkward.cardinality, awkward.label.trim,
                  .manual⟩ :: manualOf ["b 1 c".toList]) }
        warnings := r.warnings } := by
  have hd : awkward.IsWritable := by decide
  have hread : (ofText? Directive.defaultMarks (interrupted ++ resumed)).isSome = true := by
    decide +kernel
  have hbefore : (Cleaned.ofText Directive.defaultMarks interrupted).directives =
      ["a 1 b".toList] := by decide +kernel
  have hbehind : (Cleaned.ofText Directive.defaultMarks resumed).directives =
      ["b 1 c".toList] := by decide +kernel
  obtain ⟨r, hr⟩ := Option.isSome_iff_exists.1 hread
  have hline := (ofText?_directive_line hd (s := interrupted) (.inr (by decide))
    (by decide +kernel) resumed).2 r hr
  rw [hbefore, hbehind] at hline
  exact ⟨r, hr, hline.2⟩

end Reading
end DdlDiagram
