import DdlDiagram.Proofs.Cleaned.Open
import DdlDiagram.Reading

/-!
# What comments hold is not read

A comment in code is read as a blank with the line feeds of a block comment, or as nothing. What
else it holds makes no difference, be it quotes, statements, marks of comments or, in a block
comment, directives.
-/

namespace DdlDiagram
namespace Reading

open Token

variable {marks : List Text} {u comment other : Text}

/-- Block comments with equally many lines are read alike. -/
theorem ofText?_blockComment (hu : Cleaned.EndsInCode marks u)
    (hcomment : ¬ commentEnd <:+: comment) (hother : ¬ commentEnd <:+: other)
    (hcount : comment.count '\n' = other.count '\n')
    (v : Text) : ofText? marks (u ++ '/' :: '*' :: (comment ++ '*' :: '/' :: v)) =
      ofText? marks (u ++ '/' :: '*' :: (other ++ '*' :: '/' :: v)) := by
  rw [ofText?, ofText?, hu.ofText_append_blockComment hcomment,
    hu.ofText_append_blockComment hother, hcount]

/-- Line comments that are no directives are read alike. -/
theorem ofText?_lineComment (hu : Cleaned.EndsInCode marks u) (hcomment : '\n' ∉ comment)
    (hother : '\n' ∉ other)
    (hline : Cleaned.endsInDirective marks (u ++ '-' :: '-' :: comment) = false)
    (hline' : Cleaned.endsInDirective marks (u ++ '-' :: '-' :: other) = false) (v : Text) :
    ofText? marks (u ++ '-' :: '-' :: (comment ++ '\n' :: v)) =
      ofText? marks (u ++ '-' :: '-' :: (other ++ '\n' :: v)) := by
  obtain ⟨cleaned, hcleaned⟩ := hu.exists_ofText_append_lineComment v
  rw [ofText?, ofText?, hcleaned comment hcomment hline, hcleaned other hother hline']

/-- Behind a text that breaks off in code, two block comments with equally many lines are read
alike, and so are two line comments that are no directives. -/
theorem ofText?_comment (hu : Cleaned.EndsInCode marks u) (v : Text) :
    (∀ comment other : Text, ¬ commentEnd <:+: comment → ¬ commentEnd <:+: other →
      comment.count '\n' = other.count '\n' →
      ofText? marks (u ++ "/*".toList ++ comment ++ "*/".toList ++ v) =
        ofText? marks (u ++ "/*".toList ++ other ++ "*/".toList ++ v)) ∧
    ∀ comment other : Text, '\n' ∉ comment → '\n' ∉ other →
      Cleaned.endsInDirective marks (u ++ "--".toList ++ comment) = false →
      Cleaned.endsInDirective marks (u ++ "--".toList ++ other) = false →
      ofText? marks (u ++ "--".toList ++ comment ++ "\n".toList ++ v) =
        ofText? marks (u ++ "--".toList ++ other ++ "\n".toList ++ v) := by
  have hblock : "/*".toList = ['/', '*'] := rfl
  have hclose : "*/".toList = ['*', '/'] := rfl
  have hline : "--".toList = ['-', '-'] := rfl
  have hfeed : "\n".toList = ['\n'] := rfl
  rw [hblock, hclose, hline, hfeed]
  simp only [List.append_assoc, List.cons_append, List.nil_append]
  exact ⟨fun comment other hcomment hother hcount =>
      ofText?_blockComment hu hcomment hother hcount v,
    fun comment other hcomment hother hend hend' =>
      ofText?_lineComment hu hcomment hother hend hend' v⟩

/-- A text that breaks off in the body of a table, behind a dash. -/
def brokenOff : Text := "CREATE TABLE a (\n  b INT -".toList

/-- A comment with a quote, a statement, a directive and most of a mark of its end. -/
def busy : Text := "/ ' CREATE TABLE c (d);\n-- diagram: a 1 b\n/* *".toList

theorem ofText?_comment_brokenOff :
    ofText? Directive.defaultMarks (brokenOff ++ "/*".toList ++ busy ++ "*/".toList ++
        ", e INT);".toList) =
      ofText? Directive.defaultMarks (brokenOff ++ "/*".toList ++ "\n\n".toList ++ "*/".toList ++
        ", e INT);".toList) ∧
    ofText? Directive.defaultMarks (brokenOff ++ "--".toList ++ "-' diagram: /*".toList ++
        "\n".toList ++ ", e INT);".toList) =
      ofText? Directive.defaultMarks (brokenOff ++ "--".toList ++ [] ++ "\n".toList ++
        ", e INT);".toList) := by
  have hcode : Cleaned.EndsInCode Directive.defaultMarks brokenOff := by decide +kernel
  obtain ⟨hblock, hline⟩ := ofText?_comment hcode ", e INT);".toList
  exact ⟨hblock busy "\n\n".toList (by decide +kernel) (by decide +kernel) (by decide +kernel),
    hline _ [] (by decide +kernel) (by decide +kernel) (by decide +kernel) (by decide +kernel)⟩

end Reading
end DdlDiagram
