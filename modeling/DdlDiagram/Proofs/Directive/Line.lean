import DdlDiagram.Directive
import DdlDiagram.Proofs.Text.Padded
import DdlDiagram.Proofs.Text.Split
import DdlDiagram.Proofs.Token.Trimmed

/-!
# Directive lines

A line is looked at for a directive without the blanks around it. A directive that is written as
a line is found there again and read back, if the line can carry it: blanks and colons would be
taken for the end of a part, the label alone may have them.
-/

namespace DdlDiagram

variable {t t' u w g : Text} {sep : Char} {cut : Char → Bool}

namespace Directive

/-- Texts that can be a part of a directive line. -/
structure IsPart (t : Text) : Prop where
  ne_nil : t ≠ []
  isBlank : ∀ c ∈ t, isBlank c = false
  colon : ':' ∉ t

instance (t : Text) : Decidable (IsPart t) :=
  decidable_of_iff (t ≠ [] ∧ t.all (!isBlank ·) = true ∧ ':' ∉ t)
    ⟨fun ⟨hne, hblank, hcolon⟩ => ⟨hne, by simpa using hblank, hcolon⟩,
      fun h => ⟨h.ne_nil, by simpa using h.isBlank, h.colon⟩⟩

/-- Directives that a line can carry. -/
structure IsWritable (d : Directive) : Prop where
  source : IsPart d.source
  cardinality : IsPart d.cardinality
  target : IsPart d.target
  label : '\n' ∉ d.label

instance (d : Directive) : Decidable d.IsWritable :=
  decidable_of_iff (IsPart d.source ∧ IsPart d.cardinality ∧ IsPart d.target ∧ '\n' ∉ d.label)
    ⟨fun ⟨hsource, hcardinality, htarget, hlabel⟩ => ⟨hsource, hcardinality, htarget, hlabel⟩,
      fun h => ⟨h.source, h.cardinality, h.target, h.label⟩⟩

/-- Directives that are written as a single line, whatever that line is read as. -/
structure IsSingleLine (d : Directive) : Prop where
  source : '\n' ∉ d.source
  cardinality : '\n' ∉ d.cardinality
  target : '\n' ∉ d.target
  label : '\n' ∉ d.label.trim

instance (d : Directive) : Decidable d.IsSingleLine :=
  decidable_of_iff ('\n' ∉ d.source ∧ '\n' ∉ d.cardinality ∧ '\n' ∉ d.target ∧ '\n' ∉ d.label.trim)
    ⟨fun ⟨hsource, hcardinality, htarget, hlabel⟩ => ⟨hsource, hcardinality, htarget, hlabel⟩,
      fun h => ⟨h.source, h.cardinality, h.target, h.label⟩⟩

end Directive

namespace Text

theorem mem_of_mem_trim {c : Char} (h : c ∈ t.trim) : c ∈ t :=
  (List.dropWhile_suffix isBlank).subset ((List.rdropWhile_prefix isBlank _).subset h)

theorem trim_append_quote (t : Text) (h : (t ++ ['"']).startsBlank = false) :
    trim (t ++ ['"']) = t ++ ['"'] := by
  rw [trim, trimStart_of_startsBlank_eq_false h, trimEnd_eq_self_iff]
  intro c hc
  rw [List.getLast?_append_cons, List.getLast?_singleton] at hc
  obtain rfl := Option.some.inj hc
  rfl

/-- A run of characters that are not blank is a field, if a blank ends it. -/
theorem fields_append (hne : w ≠ []) (hw : ∀ c ∈ w, isBlank c = false) (u : Text) :
    fields (w ++ ' ' :: u) = w :: fields u := by
  have hcut : splitAll isBlank (' ' :: u) = [] :: splitAll isBlank u := rfl
  rw [fields, splitAll_append hw, hcut, prepend_head, List.append_nil, fields,
    List.filter_cons_of_pos (by simpa using hne)]

end Text

namespace Directive

variable {marks : List Text} {comment : Text}

theorem bodyOfLine?_eq_none (marks : List Text)
    (h : Token.startsLineComment t.trimStart = false) : bodyOfLine? marks t = none := by
  rw [bodyOfLine?]
  split
  · rename_i comment heq
    rw [heq] at h
    exact nomatch h
  · rfl

/-- A line comment is a directive if its text up to the first colon is a mark. -/
theorem bodyOfLine?_comment (marks : List Text) (h : t.trimStart = '-' :: '-' :: comment) :
    bodyOfLine? marks t = (Text.splitOnce ':' (Text.trimStart comment)).bind fun x =>
      if marks.any (·.eqIgnoreCase x.1.trimEnd) then some x.2.trim else none := by
  rw [bodyOfLine?, h]
  rfl

theorem bodyOfLine?_gap_append (marks : List Text) (hg : Text.IsGap g) (t : Text) :
    bodyOfLine? marks (g ++ t) = bodyOfLine? marks t := by
  rw [bodyOfLine?, bodyOfLine?, hg.trimStart_append]

/-- A line with blanks at its end is a directive exactly if it is one without them. -/
theorem bodyOfLine?_padded (marks : List Text) (h : Text.Padded t t') :
    bodyOfLine? marks t' = bodyOfLine? marks t := by
  obtain ⟨g, hg, htrim⟩ := h.trimStart
  cases hline : Token.startsLineComment t.trimStart with
  | false =>
      have hline' : Token.startsLineComment t'.trimStart = false := by
        rw [htrim]
        cases hstart : t.trimStart with
        | nil =>
            cases g with
            | nil => rfl
            | cons c rest =>
                have hc : c ≠ '-' := by
                  rintro rfl
                  exact absurd (Text.isGap_cons.1 hg).1 (by decide)
                simp [Token.startsLineComment_cons, hc]
        | cons c rest =>
            rw [List.cons_append, Token.startsLineComment_append_gap hg, ← hstart, hline]
      rw [bodyOfLine?_eq_none marks hline, bodyOfLine?_eq_none marks hline']
  | true =>
      obtain ⟨comment, hcomment⟩ : ∃ comment, t.trimStart = '-' :: '-' :: comment :=
        (List.isPrefixOf_iff_prefix.1 hline).imp fun _ h => h.symm
      rw [hcomment] at htrim
      have hcolon : isBlank ':' = false := rfl
      have hsplit := (hg.padded comment).trimStart.splitOnce hcolon
      rw [bodyOfLine?_comment marks hcomment, bodyOfLine?_comment marks htrim]
      exact hsplit.bind_eq fun x y hsame => by rw [hsame.1, hsame.2.trim_eq]

/-- The body of a directive holds no other characters than its line. -/
theorem subset_of_bodyOfLine? {line body : Text} (h : bodyOfLine? marks line = some body) :
    body ⊆ line := by
  rw [bodyOfLine?] at h
  split at h
  · rename_i comment hline
    obtain ⟨⟨mark, rest⟩, hsplit, hbody⟩ := Option.bind_eq_some_iff.1 h
    obtain ⟨-, hrest⟩ := Option.ite_none_right_eq_some.1 hbody
    obtain rfl := Option.some.inj hrest
    intro c hc
    have hcomment : c ∈ Text.trimStart comment := by
      rw [Text.splitOnce_eq_append hsplit]
      simp [Text.mem_of_mem_trim hc]
    have htrim : c ∈ line.trimStart := by
      rw [hline]
      simp [(List.dropWhile_suffix isBlank).subset hcomment]
    exact (List.dropWhile_suffix isBlank).subset htrim
  · cases h

theorem bareLabel_subset (label : Text) : bareLabel label ⊆ label := by
  unfold bareLabel
  split
  · rename_i rest
    split
    · exact List.subset_cons_of_subset '"' (List.dropLast_subset rest)
    · exact List.Subset.refl _
  · exact List.Subset.refl _

theorem splitLabel_subset (body : Text) :
    (splitLabel body).1 ⊆ body ∧ (splitLabel body).2 ⊆ body := by
  rw [splitLabel]
  cases hsplit : Text.splitOnce ':' body with
  | none => exact ⟨List.Subset.refl body, List.nil_subset body⟩
  | some x =>
      obtain ⟨parts, label⟩ := x
      rw [Text.splitOnce_eq_append hsplit]
      refine ⟨List.subset_append_left _ _, fun c hc => ?_⟩
      simp [Text.mem_of_mem_trim (bareLabel_subset _ hc)]

/-- The parts of a directive hold no other characters than its body. -/
theorem subset_of_ofBody? {body : Text} {d : Directive} (h : ofBody? body = some d) :
    d.source ⊆ body ∧ d.cardinality ⊆ body ∧ d.target ⊆ body ∧ d.label ⊆ body := by
  obtain ⟨hparts, hlabel⟩ := splitLabel_subset body
  have hfield : ∀ field ∈ (splitLabel body).1.fields, field ⊆ body := by
    intro field hmem c hc
    exact hparts (Text.subset_of_mem_splitAll (List.mem_filter.1 hmem).1 hc)
  rw [ofBody?] at h
  split at h
  · rename_i source cardinality target hfields
    obtain rfl := Option.some.inj h
    rw [hfields] at hfield
    exact ⟨hfield source (by simp), hfield cardinality (by simp), hfield target (by simp), hlabel⟩
  · cases h

variable {d : Directive}

theorem IsPart.startsBlank_append (h : IsPart t) (u : Text) : (t ++ u).startsBlank = false := by
  cases t with
  | nil => exact absurd rfl h.ne_nil
  | cons c rest => exact h.isBlank c List.mem_cons_self

def parts (d : Directive) : Text :=
  d.source ++ ' ' :: (d.cardinality ++ ' ' :: (d.target ++ [' ']))

def body (d : Directive) : Text := d.parts ++ ':' :: (' ' :: '"' :: (d.label.trim ++ ['"']))

theorem toLine_eq (d : Directive) : d.toLine =
    '-' :: '-' :: (' ' :: (defaultMark ++ ':' :: (' ' :: d.body))) := by
  have hdashes : "-- ".toList = ['-', '-', ' '] := rfl
  have hcolon : ": ".toList = [':', ' '] := rfl
  have hspace : " ".toList = [' '] := rfl
  have hlabel : " : \"".toList = [' ', ':', ' ', '"'] := rfl
  have hquote : "\"".toList = ['"'] := rfl
  unfold toLine
  rw [hdashes, hcolon, hspace, hlabel, hquote]
  unfold body parts
  simp only [List.append_assoc, List.cons_append, List.nil_append]

theorem IsPart.feed_not_mem (h : IsPart t) : '\n' ∉ t :=
  fun hmem => absurd (h.isBlank '\n' hmem) (by decide)

theorem IsWritable.isSingleLine (h : d.IsWritable) : d.IsSingleLine where
  source := h.source.feed_not_mem
  cardinality := h.cardinality.feed_not_mem
  target := h.target.feed_not_mem
  label hmem := h.label (Text.mem_of_mem_trim hmem)

theorem feed_not_mem_toLine_iff (d : Directive) : '\n' ∉ d.toLine ↔ d.IsSingleLine := by
  have hmark : '\n' ∉ defaultMark := by decide
  simp only [toLine_eq, body, parts, List.mem_append, List.mem_cons, List.not_mem_nil, or_false,
    not_or, hmark]
  constructor
  · rintro ⟨-, -, -, -, -, -, ⟨hsource, -, hcardinality, -, htarget, -⟩, -, -, -, hlabel, -⟩
    exact ⟨hsource, hcardinality, htarget, hlabel⟩
  · rintro ⟨hsource, hcardinality, htarget, hlabel⟩
    simp [hsource, hcardinality, htarget, hlabel]

/-- A written directive is a single line. -/
theorem IsWritable.feed_not_mem_toLine (h : d.IsWritable) : '\n' ∉ d.toLine :=
  (feed_not_mem_toLine_iff d).2 h.isSingleLine

theorem IsWritable.trim_body (h : d.IsWritable) : d.body.trim = d.body := by
  have hstart : d.body.startsBlank = false := by
    rw [body, parts, List.append_assoc]
    exact h.source.startsBlank_append _
  have hquote : d.body = (d.parts ++ ':' :: ' ' :: '"' :: d.label.trim) ++ ['"'] := by
    simp [body]
  rw [hquote] at hstart ⊢
  exact Text.trim_append_quote _ hstart

/-- Any text behind the mark that lines are written with is found under it. -/
theorem bodyOfLine?_defaultMark (t : Text) :
    bodyOfLine? defaultMarks ('-' :: '-' :: (' ' :: (defaultMark ++ ':' :: t))) = some t.trim := by
  have hmark : (':' : Char) ∉ defaultMark := by decide
  have htrim : Text.trimStart (' ' :: (defaultMark ++ ':' :: t)) = defaultMark ++ ':' :: t := rfl
  rw [bodyOfLine?_comment defaultMarks rfl, htrim, Text.splitOnce_append hmark, Option.bind_some]
  exact if_pos (show defaultMarks.any (·.eqIgnoreCase defaultMark.trimEnd) = true by decide)

/-- A written line is found under the mark it was written with. -/
theorem IsWritable.bodyOfLine?_toLine (h : d.IsWritable) :
    bodyOfLine? defaultMarks d.toLine = some d.body := by
  have hbody : Text.trim (' ' :: d.body) = d.body := h.trim_body
  rw [toLine_eq, bodyOfLine?_defaultMark, hbody]

theorem IsWritable.fields_parts (h : d.IsWritable) :
    d.parts.fields = [d.source, d.cardinality, d.target] := by
  rw [parts, Text.fields_append h.source.ne_nil h.source.isBlank,
    Text.fields_append h.cardinality.ne_nil h.cardinality.isBlank,
    Text.fields_append h.target.ne_nil h.target.isBlank]
  rfl

/-- The body of a written line has its parts, and the label without the blanks around it. -/
theorem IsWritable.ofBody?_body (h : d.IsWritable) :
    ofBody? d.body = some { d with label := d.label.trim } := by
  have hcolon : ':' ∉ d.parts := by
    simp [parts, h.source.colon, h.cardinality.colon, h.target.colon]
  have hlabel : Text.trim (' ' :: '"' :: (d.label.trim ++ ['"'])) =
      '"' :: (d.label.trim ++ ['"']) := Text.trim_append_quote ('"' :: d.label.trim) rfl
  have hsplit : splitLabel d.body = (d.parts, d.label.trim) := by
    rw [splitLabel, body, Text.splitOnce_append hcolon]
    simp only [hlabel, bareLabel_quoted]
  rw [ofBody?, hsplit, h.fields_parts]

end Directive
end DdlDiagram
