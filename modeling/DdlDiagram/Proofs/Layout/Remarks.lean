import DdlDiagram.Proofs.Cleaned.Remarks

/-!
# Directives of layouts

A layout writes a line comment on a line of its own only at the start of the text, behind a
semicolon and behind another line comment; elsewhere it goes to the line of the token before it.
So laying out a text can lose a directive, and can make one of a comment that was none.
-/

namespace DdlDiagram

open Token Layout Cleaned

variable {t : Text} {token : Token} {atom : Atom} {atoms' : List Atom} {behind : Option Token}

namespace Token

/-- Whether a layout starts a new line behind a token, or at the start of a text, for a line
comment too. -/
def setsApart : Option Token → Bool
  | none => true
  | some semicolon => true
  | some (lineComment _) => true
  | _ => false

theorem setsApart_trimmed (behind : Option Token) :
    setsApart (behind.map trimmed) = setsApart behind := by
  rcases behind with - | token
  · rfl
  · cases token <;> rfl

theorem staysOnLine_trimmed (h : token.staysOnLine = true) : token.trimmed.staysOnLine = true := by
  cases token with
  | quoted run =>
      rw [staysOnLine] at h
      have hmem : '\n' ∉ run := by simpa using h
      have htrimmed : '\n' ∉ run.trimEnd := fun hfeed =>
        hmem ((List.rdropWhile_prefix isBlank run).subset hfeed)
      simpa [trimmed, staysOnLine] using htrimmed
  | _ => rfl

end Token

/-- Whether a layout writes the comment on a line of its own. -/
def Remark.isSetApart (r : Remark) : Bool := Token.setsApart r.behind

/-- The line comments of a row of tokens that a layout writes on lines of their own. -/
def commentsApart (behind : Option Token) : List Token → List Text
  | [] => []
  | token :: rest =>
    (if setsApart behind then token.lineComment?.toList else []) ++ commentsApart (some token) rest

theorem map_source_remarksBehind (behind : Option Token) (t : Text) :
    ((remarksBehind behind t).filter Remark.isSetApart).map (·.source) =
      commentsApart behind (tokens t) := by
  induction t using Text.token_induction generalizing behind with
  | gap g hg =>
      rw [remarksBehind_of_isGap hg, tokens_of_isGap hg]
      rfl
  | token g token t rest hg hblank hnext ih =>
      rw [remarksBehind_append hg hblank hnext, tokens_append hg hblank hnext, List.filter_append,
        List.map_append, ih (some token), commentsApart, remark?]
      cases token.lineComment? <;> cases h : setsApart behind <;> simp [Remark.isSetApart, h]

/-- Blanks at the end of a cut-off token make no difference to line comments. -/
theorem commentsApart_map_trimmed {ts : List Token} (h : ∀ token ∈ ts, token.IsRead)
    (behind : Option Token) :
    commentsApart (behind.map trimmed) (ts.map trimmed) = commentsApart behind ts := by
  induction ts generalizing behind with
  | nil => rfl
  | cons token rest ih =>
      obtain ⟨hread, hrest⟩ := List.forall_mem_cons.1 h
      have hothers := ih hrest (some token)
      rw [Option.map_some] at hothers
      have hcomment : token.trimmed.lineComment? = token.lineComment? := by
        rcases hread with hwhole | hcut
        · rw [hwhole.trimmed_eq]
        · cases hcut <;> rfl
      rw [List.map_cons, commentsApart, commentsApart, hothers, setsApart_trimmed, hcomment]

/-- In a layout the comments in lines of their own are those that are set apart. -/
theorem startsLine_of_mem_write (h : Legible atoms') (indent depth : Nat)
    (previous : Option Token) :
    ∀ r ∈ remarksBehind previous (write indent depth previous atoms'),
      r.startsLine = r.isSetApart := by
  induction atoms' generalizing depth previous with
  | nil =>
      rw [write, remarksBehind_of_isGap Text.isGap_nil]
      simp
  | cons atom others ih =>
      rw [write_cons, remarksBehind_append (isGap_gapBehind indent depth previous atom)
        (h.isRead_head.startsBlank_source_append _) (next?_source_append_write _ h)]
      refine List.forall_mem_append.2 ⟨?_, ih h.tail _ _⟩
      obtain ⟨token, spaced⟩ := atom
      cases token with
      | lineComment source =>
          -- Whether the gap in front of a comment holds a line feed depends on the token before.
          intro r hr
          obtain rfl : r = ⟨previous, gapBehind indent depth previous ⟨.lineComment source, spaced⟩,
            source⟩ := by simpa [remark?, lineComment?] using hr
          rcases previous with - | previous
          · rfl
          · cases previous <;> rfl
      | _ => simp [remark?, lineComment?]

namespace Cleaned

variable {marks : List Text}

theorem directivesWhere_isSetApart (marks : List Text) (t : Text) :
    directivesWhere marks Remark.isSetApart (remarks t) =
      (commentsApart none (tokens t)).filterMap (Directive.bodyOfLine? marks) := by
  rw [← map_source_remarksBehind, List.filterMap_map]
  rfl

/-- Laying out a text does not change which of its comments a layout sets apart. -/
theorem directivesWhere_isSetApart_format (marks : List Text) (indent : Nat) (t : Text) :
    directivesWhere marks Remark.isSetApart (remarks (t.format indent)) =
      directivesWhere marks Remark.isSetApart (remarks t) := by
  rw [directivesWhere_isSetApart, directivesWhere_isSetApart, Text.tokens_format]
  exact congrArg _ (commentsApart_map_trimmed isRead_of_mem_tokens none)

/-- The directives of a layout are the line comments that it sets apart, those of the text the line
comments in lines of their own, if no quoted run holds a line feed. So laying out keeps the
directives if the comments that could be directives are in lines of their own exactly where a
layout sets them apart. -/
theorem directives_format (hlines : ∀ token ∈ tokens t, token.staysOnLine = true) (indent : Nat)
    (marks : List Text) :
    (ofText marks (t.format indent)).directives =
        directivesWhere marks Remark.isSetApart (remarks t) ∧
      (ofText marks t).directives = directivesWhere marks Remark.startsLine (remarks t) ∧
      ((∀ r ∈ remarks t, (r.directive? marks).isSome = true → r.startsLine = r.isSetApart) →
        (ofText marks (t.format indent)).directives = (ofText marks t).directives) := by
  have hformat : ∀ token ∈ tokens (t.format indent), token.staysOnLine = true := by
    rw [Text.tokens_format]
    exact List.forall_mem_map.2 fun token hmem => staysOnLine_trimmed (hlines token hmem)
  have hsame : ∀ r ∈ remarks (t.format indent), r.startsLine = r.isSetApart := by
    rw [Text.format_eq_write]
    exact startsLine_of_mem_write (legible_atoms t).map_trimmed indent 0 none
  have hlayout : (ofText marks (t.format indent)).directives =
      directivesWhere marks Remark.isSetApart (remarks t) := by
    rw [directives_ofText hformat, ← directivesWhere_isSetApart_format marks indent]
    exact congrArg _ (List.filter_congr hsame)
  have htext := directives_ofText hlines marks
  refine ⟨hlayout, htext, fun hagree => ?_⟩
  rw [hlayout, htext]
  exact directivesWhere_congr fun r hmem hsome => (hagree r hmem hsome).symm

/-- A text with directives at its start, behind a semicolon and behind another one, with a comment
that is no directive in a table, and with one that is no comment. -/
def remarked : Text :=
  "-- diagram: a 1 b\nCREATE TABLE a (x, -- diagram\ny /* diagram: */);\n".toList ++
    "-- mermaid: b 1 c\n--diagram:".toList

theorem directives_format_remarked :
    (∀ token ∈ tokens remarked, token.staysOnLine = true) ∧
      (∀ r ∈ remarks remarked, (r.directive? Directive.defaultMarks).isSome = true →
        r.startsLine = r.isSetApart) ∧
      (ofText Directive.defaultMarks (remarked.format 4)).directives =
        (ofText Directive.defaultMarks remarked).directives := by
  have hlines : ∀ token ∈ tokens remarked, token.staysOnLine = true := by decide +kernel
  have hagree : ∀ r ∈ remarks remarked, (r.directive? Directive.defaultMarks).isSome = true →
      r.startsLine = r.isSetApart := by decide +kernel
  exact ⟨hlines, hagree, (directives_format hlines 4 Directive.defaultMarks).2.2 hagree⟩

/-- Texts with a directive in a line of its own behind a parenthesis, with a comment behind a
semicolon, and with no comment but a string whose second line looks like one. -/
def misplaced : List Text := [
  "CREATE TABLE t (\n-- diagram: a 1 b\nx INT)".toList,
  "CREATE TABLE t (x INT); -- diagram: a 1 b".toList,
  "'a\n-- diagram: p 1 q'   x".toList]

/-- A layout loses the directive of the first text and makes one of the comment of the second. In the
third the line within the string is taken for a directive, and a layout changes what stands behind
the string on that line. -/
theorem directives_format_ne : List.Forall (fun t =>
    (ofText Directive.defaultMarks (t.format 4)).directives ≠
      (ofText Directive.defaultMarks t).directives) misplaced := by
  decide +kernel

end Cleaned
end DdlDiagram
