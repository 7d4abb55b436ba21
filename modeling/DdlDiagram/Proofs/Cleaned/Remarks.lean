import DdlDiagram.Proofs.Cleaned.Rest

/-!
# Directives among line comments

A directive is a line comment with nothing in front of it on its line. So the directives of a text
are known from its line comments, each with the gap and the token before it, as long as every
quoted run stays on its line.
-/

namespace DdlDiagram

open Token

variable {t u rest g line : Text} {token : Token} {c : Char} {behind : Option Token}
variable {place next : Place} {kept : Text} {marks : List Text}

/-- A line comment, with the gap and the token in front of it. Nothing stands before the first
token of a text. -/
structure Remark where
  behind : Option Token
  gap : Text
  source : Text
  deriving DecidableEq, Repr

namespace Remark

/-- Whether only blanks stand in front of the comment on its line. -/
def startsLine (r : Remark) : Bool := r.behind.isNone || r.gap.contains '\n'

/-- The body of the directive that the comment would be in a line of its own. -/
def directive? (marks : List Text) (r : Remark) : Option Text :=
  Directive.bodyOfLine? marks r.source

end Remark

namespace Token

def lineComment? : Token → Option Text
  | lineComment source => some source
  | _ => none

/-- The remark that a token makes, if it is a line comment. -/
def remark? (behind : Option Token) (gap : Text) (token : Token) : Option Remark :=
  token.lineComment?.map (Remark.mk behind gap)

end Token

/-- The line comments of a text that stands behind a token. -/
def remarksBehind (behind : Option Token) (t : Text) : List Remark :=
  match _h : Token.next? t.trimStart with
  | none => []
  | some (token, rest) =>
    (token.remark? behind (t.takeWhile isBlank)).toList ++ remarksBehind (some token) rest
termination_by t.length
decreasing_by
  exact Nat.lt_of_lt_of_le (Token.length_lt_of_next? _h) (Text.length_trimStart_le t)

def remarks (t : Text) : List Remark := remarksBehind none t

theorem remarksBehind_of_isGap (hg : Text.IsGap g) (behind : Option Token) :
    remarksBehind behind g = [] := by
  rw [remarksBehind]
  split
  · rfl
  · rename_i hnext
    simp [hg.trimStart, Token.next?] at hnext

theorem remarksBehind_append (hg : Text.IsGap g) (hblank : t.startsBlank = false)
    (hnext : Token.next? t = some (token, rest)) (behind : Option Token) :
    remarksBehind behind (g ++ t) =
      (token.remark? behind g).toList ++ remarksBehind (some token) rest := by
  have htrim : (g ++ t).trimStart = t := by
    rw [hg.trimStart_append, Text.trimStart_of_startsBlank_eq_false hblank]
  have htake : (g ++ t).takeWhile isBlank = g := by
    refine Text.takeWhile_append_of_head? hg fun c hc => ?_
    rw [Text.startsBlank_eq_head?, hc] at hblank
    exact hblank
  rw [remarksBehind]
  split
  · rename_i hnone
    simp [htrim, hnext] at hnone
  · rename_i hsome
    rw [htrim, hnext, Option.some.injEq, Prod.mk.injEq] at hsome
    obtain ⟨rfl, rfl⟩ := hsome
    rw [htake]

/-- The mark of a line comment stays on the line. -/
theorem startsLineComment_trimStart_firstLine (hblank : t.startsBlank = false)
    (hline : startsLineComment t = false) : startsLineComment t.firstLine.trimStart = false := by
  cases t with
  | nil => rfl
  | cons c rest =>
      have hc : c ≠ '\n' := Text.ne_of_isBlank hblank rfl
      have htrim : Text.trimStart (c :: Text.firstLine rest) = c :: Text.firstLine rest :=
        Text.trimStart_of_startsBlank_eq_false hblank
      rw [startsLineComment_cons] at hline
      rw [Text.firstLine_cons hc, htrim, startsLineComment_cons, Text.head?_firstLine (by decide),
        hline]

theorem Token.startsLineComment_of_next? {source : Text}
    (hnext : next? t = some (lineComment source, rest)) : startsLineComment t = true := by
  cases reads_of_next? hnext with
  | lineComment => rfl

namespace Cleaned

/-- The directives of the lines behind the one that a text starts in. -/
def laterDirectives (marks : List Text) (place : Place) (t : Text) : List Text :=
  match t.behindFirstLine with
  | [] => []
  | _ :: others =>
    (ofLines marks (strip place t.firstLine).2.afterFeed (Text.lines others)).directives

theorem laterDirectives_of_not_mem (hline : '\n' ∉ line) (marks : List Text) (place : Place) :
    laterDirectives marks place line = [] := by
  rw [laterDirectives, (Text.firstLine_of_not_mem hline).2]

theorem laterDirectives_append_feed (hline : '\n' ∉ line) (marks : List Text) (place : Place)
    (t : Text) : laterDirectives marks place (line ++ '\n' :: t) =
      (ofLines marks (strip place line).2.afterFeed t.lines).directives := by
  obtain ⟨hfirst, hbehind⟩ := Text.firstLine_append_feed hline t
  rw [laterDirectives, hfirst, hbehind]

/-- A line that is a directive ends within a line comment. -/
theorem strip_of_bodyOfLine? {body : Text} (hline : '\n' ∉ line)
    (h : Directive.bodyOfLine? marks line = some body) :
    (strip (.code none) line).2 = .lineComment := by
  refine strip_of_startsLineComment hline ?_
  by_contra hstart
  rw [Directive.bodyOfLine?_eq_none marks (Bool.eq_false_iff.2 hstart)] at h
  exact nomatch h

/-- The directives of a text are that of its first line and those of the lines behind. -/
theorem directives_ofLines (hplace : place.StartsLine) (marks : List Text) (t : Text) :
    (ofLines marks place t.lines).directives =
      (Cleaned.directive? marks place t.firstLine).toList ++ laterDirectives marks place t := by
  induction t using Text.line_induction with
  | last line hline =>
      rw [(Text.firstLine_of_not_mem hline).1, laterDirectives_of_not_mem hline]
      by_cases hne : line = []
      · rw [hne]
        simp [Text.lines, ofLines, Cleaned.directive?, Directive.bodyOfLine?]
      · rw [Text.lines_of_not_mem hline hne, ofLines]
        cases Cleaned.directive? marks place line <;> rfl
  | feed line rest hline _ =>
      have hsame := directive?_append_feed marks place line
      rw [(Text.firstLine_append_feed hline rest).1, laterDirectives_append_feed hline,
        Text.lines_append_feed hline]
      cases hbody : Cleaned.directive? marks place line with
      | none =>
          rw [ofLines_cons_none (hsame.trans hbody), strip_append_singleton_feed]
          rfl
      | some body =>
          have hcode : place ≠ .blockComment := by
            rintro rfl
            simp [Cleaned.directive?] at hbody
          obtain rfl := hplace.eq_code hcode
          rw [ofLines_cons_some (hsame.trans hbody), strip_of_bodyOfLine? hline hbody]
          rfl

theorem directives_ofText_eq (marks : List Text) (t : Text) : (ofText marks t).directives =
    (Directive.bodyOfLine? marks t.firstLine).toList ++ laterDirectives marks (.code none) t :=
  directives_ofLines Place.startsLine_code marks t

theorem laterDirectives_eq (marks : List Text) (place : Place) (t : Text) :
    laterDirectives marks place t = (ofRest marks place t).directives := by
  rw [laterDirectives, ofRest]
  cases t.behindFirstLine <;> rfl

/-- Steps pass no directive. -/
theorem Passes.laterDirectives_eq (h : Passes place t kept next u) (marks : List Text) :
    laterDirectives marks place t = laterDirectives marks next u := by
  rw [Cleaned.laterDirectives_eq, Cleaned.laterDirectives_eq, h.ofRest_eq]
  rfl

theorem Resumes.laterDirectives_eq (h : Resumes place rest) (marks : List Text) :
    laterDirectives marks place rest = laterDirectives marks (.code none) rest := by
  rcases h with rfl | rfl | ⟨rfl, hhead⟩
  · rfl
  · rfl
  · obtain ⟨u, rfl⟩ := List.head?_eq_some_iff.1 hhead
    rfl

/-- Blanks in front of a text make no difference to its directives. -/
theorem directives_gap_append (hg : Text.IsGap g) (marks : List Text) (t : Text) :
    (ofText marks (g ++ t)).directives = (ofText marks t).directives := by
  induction g with
  | nil => rfl
  | cons c rest ih =>
      obtain ⟨hc, hrest⟩ := Text.isGap_cons.1 hg
      have hblank : Text.IsGap [c] := Text.isGap_cons.2 ⟨hc, Text.isGap_nil⟩
      rw [← ih hrest, List.cons_append]
      by_cases hfeed : c = '\n'
      · have hlines := Text.lines_append_feed List.not_mem_nil (rest ++ t)
        rw [List.nil_append, List.nil_append] at hlines
        rw [hfeed, ofText, hlines, ofLines_cons_none]
        · rfl
        · rw [Cleaned.directive?, ite_eq_left_iff]
          exact fun _ => rfl
      · have hlater := (passes_gap hblank (by simpa using Ne.symm hfeed)
          (rest ++ t)).laterDirectives_eq marks
        have hbody := Directive.bodyOfLine?_gap_append marks hblank (Text.firstLine (rest ++ t))
        rw [List.singleton_append] at hlater hbody
        rw [directives_ofText_eq, directives_ofText_eq, hlater, Text.firstLine_cons hfeed, hbody]

/-- Only a line feed makes a gap lead to a new line. -/
theorem laterDirectives_gap_append (hg : Text.IsGap g) (marks : List Text) (t : Text) :
    laterDirectives marks (.code none) (g ++ t) =
      if g.contains '\n' then (ofText marks t).directives
      else laterDirectives marks (.code none) t := by
  induction g with
  | nil => rfl
  | cons c rest ih =>
      obtain ⟨hc, hrest⟩ := Text.isGap_cons.1 hg
      have hblank : Text.IsGap [c] := Text.isGap_cons.2 ⟨hc, Text.isGap_nil⟩
      by_cases hfeed : c = '\n'
      · have hlater := laterDirectives_append_feed List.not_mem_nil marks (.code none) (rest ++ t)
        rw [List.nil_append] at hlater
        rw [hfeed, List.cons_append, hlater, List.contains_cons, beq_self_eq_true, Bool.true_or,
          if_pos rfl, ← directives_gap_append hrest]
        rfl
      · have hlater := (passes_gap hblank (by simpa using Ne.symm hfeed)
          (rest ++ t)).laterDirectives_eq marks
        rw [List.cons_append, ← List.singleton_append, hlater, ih hrest, List.contains_cons,
          beq_eq_false_iff_ne.2 (Ne.symm hfeed), Bool.false_or]

/-- The directives that some of the line comments would be in lines of their own. -/
def directivesWhere (marks : List Text) (p : Remark → Bool) (rs : List Remark) : List Text :=
  (rs.filter p).filterMap (Remark.directive? marks)

theorem directivesWhere_append (marks : List Text) (p : Remark → Bool) (rs others : List Remark) :
    directivesWhere marks p (rs ++ others) =
      directivesWhere marks p rs ++ directivesWhere marks p others := by
  simp [directivesWhere]

/-- Only comments that could be directives count. -/
theorem directivesWhere_congr {p q : Remark → Bool} {rs : List Remark}
    (h : ∀ r ∈ rs, (r.directive? marks).isSome = true → p r = q r) :
    directivesWhere marks p rs = directivesWhere marks q rs := by
  induction rs with
  | nil => rfl
  | cons r rest ih =>
      obtain ⟨hr, hrest⟩ := List.forall_mem_cons.1 h
      have hothers := ih hrest
      rw [directivesWhere, directivesWhere] at hothers ⊢
      rw [List.filter_cons, List.filter_cons]
      cases hbody : r.directive? marks with
      | none => cases p r <;> cases q r <;> simp [hbody, hothers]
      | some body =>
          rw [hr (by simp [hbody])]
          cases q r <;> simp [hbody, hothers]

/-- A line that starts with a line comment is a directive as the comment is, and other lines are
none. -/
theorem bodyOfLine?_firstLine (hblank : t.startsBlank = false)
    (hnext : Token.next? t = some (token, rest)) (marks : List Text) (behind : Option Token)
    (g : Text) : Directive.bodyOfLine? marks t.firstLine =
      (token.remark? behind g).bind (Remark.directive? marks) := by
  cases hline : startsLineComment t with
  | true =>
      obtain ⟨u, rfl⟩ := List.isPrefixOf_iff_prefix.1 hline
      have hread : Token.next? ("--".toList ++ u) = some (.lineComment
          (Text.trimEnd (Text.firstLine ("--".toList ++ u))), u.dropWhile (· != '\n')) := rfl
      obtain ⟨rfl, -⟩ := Prod.mk.inj (Option.some.inj (hread.symm.trans hnext))
      obtain ⟨g', hg', hsplit⟩ := Text.exists_trimEnd_append_gap (Text.firstLine ("--".toList ++ u))
      exact Directive.bodyOfLine?_padded marks ⟨g', hg', hsplit⟩
  | false =>
      have hnone : token.remark? behind g = none := by
        cases token with
        | lineComment source =>
            rw [startsLineComment_of_next? hnext] at hline
            exact absurd hline Bool.noConfusion
        | _ => rfl
      rw [hnone]
      exact Directive.bodyOfLine?_eq_none marks (startsLineComment_trimStart_firstLine hblank hline)

theorem directivesWhere_remark? (hblank : t.startsBlank = false)
    (hnext : Token.next? t = some (token, rest)) (marks : List Text) (behind : Option Token)
    (g : Text) : directivesWhere marks Remark.startsLine (token.remark? behind g).toList =
      if behind.isNone || g.contains '\n' then (Directive.bodyOfLine? marks t.firstLine).toList
      else [] := by
  rw [bodyOfLine?_firstLine hblank hnext marks behind g]
  cases hremark : token.remark? behind g with
  | none => exact (ite_self _).symm
  | some r =>
      have hstarts : r.startsLine = (behind.isNone || g.contains '\n') := by
        cases token with
        | lineComment source => rw [← Option.some.inj hremark]; rfl
        | _ => exact nomatch hremark
      rw [directivesWhere, ← hstarts]
      cases hr : r.startsLine with
      | true => cases hbody : r.directive? marks <;> simp [hr, hbody]
      | false => simp [hr]

/-- Behind a token the directives are the line comments with a line feed in front of them. -/
theorem laterDirectives_eq_directivesWhere (hlines : ∀ token ∈ tokens t, token.staysOnLine = true)
    (marks : List Text) (previous : Token) : laterDirectives marks (.code none) t =
      directivesWhere marks Remark.startsLine (remarksBehind (some previous) t) := by
  induction t using Text.token_induction generalizing previous with
  | gap g hg =>
      have hlater := laterDirectives_gap_append hg marks []
      rw [List.append_nil] at hlater
      rw [hlater, remarksBehind_of_isGap hg]
      exact ite_self _
  | token g token t rest hg hblank hnext ih =>
      rw [tokens_append hg hblank hnext] at hlines
      obtain ⟨hline, hothers⟩ := List.forall_mem_cons.1 hlines
      obtain ⟨kept, next, -, hpasses, hresumes⟩ := exists_passes_of_next? hblank hnext hline
      have hlater : laterDirectives marks (.code none) t =
          laterDirectives marks (.code none) rest :=
        (hpasses.laterDirectives_eq marks).trans (hresumes.laterDirectives_eq marks)
      rw [laterDirectives_gap_append hg, remarksBehind_append hg hblank hnext,
        directivesWhere_append, directivesWhere_remark? hblank hnext, ← ih hothers token, ← hlater,
        directives_ofText_eq]
      cases g.contains '\n' <;> rfl

/-- The directives of a text are the line comments in lines of their own, if no quoted run holds a
line feed. -/
theorem directives_ofText (hlines : ∀ token ∈ tokens t, token.staysOnLine = true)
    (marks : List Text) : (ofText marks t).directives =
      directivesWhere marks Remark.startsLine (remarks t) := by
  cases t using Text.token_induction with
  | gap g hg =>
      have hnone := directives_gap_append hg marks []
      rw [List.append_nil] at hnone
      rw [hnone, remarks, remarksBehind_of_isGap hg]
      rfl
  | token g token t rest hg hblank hnext =>
      rw [tokens_append hg hblank hnext] at hlines
      obtain ⟨hline, hothers⟩ := List.forall_mem_cons.1 hlines
      obtain ⟨kept, next, -, hpasses, hresumes⟩ := exists_passes_of_next? hblank hnext hline
      rw [remarks, remarksBehind_append hg hblank hnext, directivesWhere_append,
        directivesWhere_remark? hblank hnext,
        ← laterDirectives_eq_directivesWhere hothers marks token, directives_gap_append hg,
        directives_ofText_eq, hpasses.laterDirectives_eq, hresumes.laterDirectives_eq]
      rfl

end Cleaned
end DdlDiagram
