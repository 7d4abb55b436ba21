import DdlDiagram.Proofs.Cleaned.Rest

/-!
# Texts that break off in code

A text breaks off in code if what is written on behind it stands outside of comments, directives
and quoted runs. It is then cleaned apart from what follows, unless its last character and the
next one are the mark of a comment, and a comment behind it leaves nothing but its line feeds and
a blank.
-/

namespace DdlDiagram

open Token

variable {t x line comment rest kept : Text} {c : Char} {place next : Place} {marks : List Text}

namespace Text

/-- A text up to its last line feed. -/
def closedLines (t : Text) : Text := (t.reverse.dropWhile (· != '\n')).reverse

def openLine (t : Text) : Text := (t.reverse.takeWhile (· != '\n')).reverse

theorem closedLines_append_openLine (t : Text) : t.closedLines ++ t.openLine = t := by
  rw [closedLines, openLine, ← List.reverse_append, List.takeWhile_append_dropWhile,
    List.reverse_reverse]

theorem endsLine_closedLines (t : Text) : t.closedLines.EndsLine := by
  have hhead := List.head?_dropWhile_not (· != '\n') t.reverse
  rw [EndsLine, closedLines, List.getLast?_reverse]
  cases hrest : t.reverse.dropWhile (· != '\n') with
  | nil => exact .inl rfl
  | cons c rest =>
      rw [hrest] at hhead
      simp only [List.head?_cons, bne_eq_false_iff_eq] at hhead
      exact .inr (congrArg some hhead)

theorem feed_not_mem_openLine (t : Text) : '\n' ∉ t.openLine := fun hmem => by
  simpa using List.mem_takeWhile_imp (List.mem_reverse.1 hmem)

theorem firstLine_append (hline : '\n' ∉ line) (t : Text) :
    (line ++ t).firstLine = line ++ t.firstLine :=
  List.takeWhile_append_of_pos fun c hc => by simpa using fun heq : c = '\n' => hline (heq ▸ hc)

/-- Text without a line feed goes on in the open line. -/
theorem openLine_append (hx : '\n' ∉ x) (t : Text) :
    (t ++ x).closedLines = t.closedLines ∧ (t ++ x).openLine = t.openLine ++ x := by
  have hpass : ∀ c ∈ x.reverse, (c != '\n') = true := by
    intro c hc
    simpa using fun heq : c = '\n' => hx (heq ▸ List.mem_reverse.1 hc)
  rw [closedLines, closedLines, openLine, openLine, List.reverse_append,
    List.dropWhile_append_of_pos hpass, List.takeWhile_append_of_pos hpass, List.reverse_append,
    List.reverse_reverse]
  exact ⟨rfl, rfl⟩

end Text

namespace Cleaned

/-- The place at which the last line of a text starts. -/
def openPlace (marks : List Text) (t : Text) : Place := (ofText marks t.closedLines).place

def endsInDirective (marks : List Text) (t : Text) : Bool :=
  (directive? marks (openPlace marks t) t.openLine).isSome

/-- Texts that break off outside of comments and quoted runs: stripping the last line leads to code.
In a directive it would not, since a directive is a line comment. -/
def EndsInCode (marks : List Text) (t : Text) : Prop :=
  (strip (openPlace marks t) t.openLine).2 = .code none

instance (marks : List Text) (t : Text) : Decidable (EndsInCode marks t) :=
  inferInstanceAs (Decidable ((strip (openPlace marks t) t.openLine).2 = .code none))

/-- The lines before the open one are cleaned apart. If the open line is no directive with what is
written on, it is stripped in steps, and the text behind these steps is cleaned as it stands. -/
theorem ofText_append_of_passes
    (hline : directive? marks (openPlace marks t) (t.openLine ++ x).firstLine = none)
    (hpasses : Passes (openPlace marks t) (t.openLine ++ x) kept next rest) :
    ofText marks (t ++ x) =
      (ofText marks t.closedLines).append ((ofRest marks next rest).behind kept) := by
  conv => lhs; rw [← Text.closedLines_append_openLine t]
  rw [List.append_assoc, ofText, (Text.endsLine_closedLines t).lines_append, ofLines_append,
    ← hpasses.ofRest_eq, ← ofLines_eq_ofRest hline]
  rfl

theorem startsLine_openPlace (marks : List Text) (t : Text) : (openPlace marks t).StartsLine :=
  (ofLines_of_endsLine marks (Text.endsLine_closedLines t) Place.startsLine_code).1

/-- Text that is written on in a line does not change where the line starts. -/
theorem endsInDirective_append (hx : '\n' ∉ x) (marks : List Text) (t : Text) :
    endsInDirective marks (t ++ x) =
      (directive? marks (openPlace marks t) (t.openLine ++ x)).isSome := by
  rw [endsInDirective, openPlace, (Text.openLine_append hx t).1, (Text.openLine_append hx t).2]
  rfl

/-- The open line of a text, if it is no directive, is stripped. -/
theorem ofText_eq_of_openLine (h : endsInDirective marks t = false) : ofText marks t =
    (ofText marks t.closedLines).append ⟨(strip (openPlace marks t) t.openLine).1, [],
      (strip (openPlace marks t) t.openLine).2⟩ := by
  have hfeed := Text.feed_not_mem_openLine t
  have hline : directive? marks (openPlace marks t) (t.openLine ++ []).firstLine = none := by
    rwa [List.append_nil, (Text.firstLine_of_not_mem hfeed).1, ← Option.isNone_iff_eq_none,
      ← Option.isSome_eq_false_iff]
  have happend := ofText_append_of_passes hline (.refl _ _)
  rw [List.append_nil, List.append_nil, ofRest_of_not_mem hfeed] at happend
  exact happend

/-- A line that leads to code does not start with a line comment. -/
theorem startsLineComment_of_strip (hline : '\n' ∉ line)
    (h : (strip (.code none) line).2 = .code none) : startsLineComment line.trimStart = false := by
  by_contra hstart
  rw [strip_of_startsLineComment hline (Bool.not_eq_false _ ▸ hstart)] at h
  exact nomatch h

theorem EndsInCode.directive (h : EndsInCode marks t) : endsInDirective marks t = false := by
  rw [endsInDirective, Option.isSome_eq_false_iff, Option.isNone_iff_eq_none, directive?,
    ite_eq_left_iff]
  intro hne
  rw [EndsInCode, (startsLine_openPlace marks t).eq_code hne] at h
  have hstart := startsLineComment_of_strip (Text.feed_not_mem_openLine t) h
  exact Directive.bodyOfLine?_eq_none marks hstart

/-- A line that leads to code is stripped in steps that do not depend on what is written behind
it, but perhaps the last one, which passes a single character. -/
theorem step_induction {motive : Place → Text → Prop} (nil : motive (.code none) [])
    (last : ∀ q c, c ≠ '\n' → q.after c = none → motive (.code q) [c])
    (step : ∀ place t kept next u, (∀ x, Step place (t ++ x) kept next (u ++ x)) →
      motive next u → motive place t)
    (hline : '\n' ∉ line) (h : (strip place line).2 = .code none) : motive place line := by
  fun_induction strip place line with
  | case1 place =>
      rw [show place = .code none from h]
      exact nil
  | case2 q c =>
      have hc : c ≠ '\n' := by simpa [eq_comm] using hline
      rw [if_neg hc, Place.code.injEq] at h
      exact last q c hc h
  | case3 => simp at hline
  | case4 q c d rest hc hcovers ih =>
      have hrest : '\n' ∉ d :: rest := fun hmem => hline (List.mem_cons_of_mem _ hmem)
      exact step _ _ _ _ _ (fun x => .quoted hc hcovers) (ih hrest h)
  | case5 q c d rest hc hcovers hdash ih =>
      obtain ⟨rfl, rfl⟩ := hdash
      obtain ⟨rfl, -⟩ := Quote.eq_none_of_not_covers (Bool.not_eq_true _ ▸ hcovers)
      have hrest : '\n' ∉ rest := fun hmem => hline (by simp [hmem])
      exact step _ _ _ _ _ (fun x => .openLine) (ih hrest h)
  | case6 q c d rest hc hcovers hdash hslash ih =>
      obtain ⟨rfl, rfl⟩ := hslash
      obtain ⟨rfl, -⟩ := Quote.eq_none_of_not_covers (Bool.not_eq_true _ ▸ hcovers)
      have hrest : '\n' ∉ rest := fun hmem => hline (by simp [hmem])
      exact step _ _ _ _ _ (fun x => .openBlock) (ih hrest h)
  | case7 q c d rest hc hcovers hdash hslash ih =>
      obtain ⟨rfl, -⟩ := Quote.eq_none_of_not_covers (Bool.not_eq_true _ ▸ hcovers)
      have hrest : '\n' ∉ d :: rest := fun hmem => hline (List.mem_cons_of_mem _ hmem)
      exact step _ _ _ _ _ (fun x => .plain hc (Bool.not_eq_true _ ▸ hcovers)
        (by simpa [startsLineComment_cons] using hdash)
        (by simpa [startsBlockComment_cons] using hslash)) (ih hrest h)
  | case8 => simp at hline
  | case9 c rest hc ih =>
      have hrest : '\n' ∉ rest := fun hmem => hline (List.mem_cons_of_mem _ hmem)
      exact step _ _ _ _ _ (fun x => .inLine hc) (ih hrest h)
  | case10 c => cases h
  | case11 c d rest hclose ih =>
      obtain ⟨rfl, rfl⟩ := hclose
      have hrest : '\n' ∉ rest := fun hmem => hline (by simp [hmem])
      exact step _ _ _ _ _ (fun x => .closeBlock) (ih hrest h)
  | case12 => simp at hline
  | case13 c d rest hclose hc ih =>
      have hrest : '\n' ∉ d :: rest := fun hmem => hline (List.mem_cons_of_mem _ hmem)
      refine step _ _ _ _ _ (fun x => .inBlock hc fun hend => hclose ?_) (ih hrest h)
      simpa [commentEnd, List.cons_prefix_cons, eq_comm] using hend

/-- A last character is stripped as in front of what makes no mark with it. -/
theorem passes_singleton {q : Quote} (hc : c ≠ '\n') (hafter : q.after c = none)
    (hline : c = '-' → x.head? ≠ some '-') (hblock : c = '/' → x.head? ≠ some '*') :
    Passes (.code q) (c :: x) [c] (.code none) x := by
  cases hcovers : q.covers c with
  | true => exact (hafter ▸ Step.quoted hc hcovers).passes
  | false =>
      obtain ⟨rfl, -⟩ := Quote.eq_none_of_not_covers hcovers
      refine (Step.plain hc hcovers ?_ ?_).passes
      · simpa [startsLineComment_cons] using hline
      · simpa [startsBlockComment_cons] using hblock

/-- A line that leads to code is stripped apart from what is written behind it, unless that could
make a mark with its last character. -/
theorem passes_append (hline : '\n' ∉ line) (h : (strip place line).2 = .code none)
    (hdash : x.head? ≠ some '-') (hstar : x.head? ≠ some '*') :
    Passes place (line ++ x) (strip place line).1 (.code none) x := by
  refine step_induction
    (motive := fun place line => Passes place (line ++ x) (strip place line).1 (.code none) x)
    ?nil ?last ?step hline h
  case nil => exact .refl _ _
  case last =>
    intro q c hc hafter
    rw [show (strip (.code q) [c]).1 = [c] from rfl]
    exact passes_singleton hc hafter (fun _ => hdash) fun _ => hstar
  case step =>
    intro place t kept next u hstep ih
    have hkept := (hstep []).strip_eq
    rw [List.append_nil, List.append_nil] at hkept
    rw [hkept]
    exact .step (hstep x) ih

/-- What a line that leads to code keeps in front of a line comment does not depend on the
comment, even if the comment starts with its last character. -/
theorem exists_passes_lineComment (hline : '\n' ∉ line) (h : (strip place line).2 = .code none) :
    ∃ kept, ∀ comment x : Text, '\n' ∉ comment →
      Passes place (line ++ '-' :: '-' :: (comment ++ x)) kept .lineComment x := by
  refine step_induction
    (motive := fun place line => ∃ kept, ∀ comment x : Text, '\n' ∉ comment →
      Passes place (line ++ '-' :: '-' :: (comment ++ x)) kept .lineComment x)
    ?nil ?last ?step hline h
  case nil =>
    exact ⟨[], fun comment x hcomment => .step .openLine (passes_lineComment hcomment x)⟩
  case last =>
    intro q c hc hafter
    by_cases hmark : c = '-'
    · subst hmark
      cases hcovers : q.covers '-' with
      | true =>
          refine ⟨['-'], fun comment x hcomment => ?_⟩
          exact .step (hafter ▸ Step.quoted hc hcovers)
            (.step .openLine (passes_lineComment hcomment x))
      | false =>
          obtain ⟨rfl, -⟩ := Quote.eq_none_of_not_covers hcovers
          refine ⟨[], fun comment x hcomment => .step .openLine ?_⟩
          exact passes_lineComment (s := '-' :: comment) (by simpa using hcomment) x
    · refine ⟨[c], fun comment x hcomment => ?_⟩
      have hpasses := passes_singleton (x := '-' :: '-' :: (comment ++ x)) hc hafter
        (fun heq => absurd heq hmark) (by simp)
      exact hpasses.trans (.step .openLine (passes_lineComment hcomment x))
  case step =>
    rintro place t kept next u hstep ⟨others, hpasses⟩
    exact ⟨kept ++ others, fun comment x hcomment => .step (hstep _) (hpasses comment x hcomment)⟩

/-- Of a block comment its line feeds are kept, and a blank where it closes. -/
theorem passes_blockComment (hcomment : ¬ commentEnd <:+: comment) (x : Text) :
    Passes .blockComment (comment ++ '*' :: '/' :: x)
      (List.replicate (comment.count '\n') '\n' ++ [' ']) (.code none) x := by
  induction comment with
  | nil => exact Step.closeBlock.passes
  | cons c comment ih =>
      rw [List.infix_cons_iff, not_or] at hcomment
      have hend : ¬ commentEnd <+: c :: (comment ++ '*' :: '/' :: x) := by
        rintro hend
        rw [commentEnd, List.cons_prefix_cons] at hend
        cases comment with
        | nil => simp [List.cons_prefix_cons] at hend
        | cons d comment =>
            refine hcomment.1 ?_
            simpa [commentEnd, List.cons_prefix_cons] using hend
      by_cases hc : c = '\n'
      · subst hc
        rw [List.count_cons_self, List.replicate_succ]
        have hpasses := Passes.step .feed (ih hcomment.2)
        exact hpasses
      · rw [List.count_cons_of_ne hc]
        have hpasses := Passes.step (.inBlock hc hend) (ih hcomment.2)
        exact hpasses

/-- A line that leads to code is no directive if what is written behind it starts with no dash. -/
theorem directive?_append (hplace : place.StartsLine) (hline : '\n' ∉ line)
    (h : (strip place line).2 = .code none) (hdash : c ≠ '-') (hblank : isBlank c = false)
    (marks : List Text) (x : Text) : directive? marks place (line ++ c :: x) = none := by
  rw [directive?, ite_eq_left_iff]
  intro hne
  obtain rfl := hplace.eq_code hne
  refine Directive.bodyOfLine?_eq_none marks ?_
  have hstart := startsLineComment_of_strip hline h
  obtain ⟨g, hg, hsplit⟩ := Text.exists_gap_append_trimStart line
  have htrim : (line ++ c :: x).trimStart = line.trimStart ++ c :: x := by
    conv => lhs; rw [hsplit, List.append_assoc, hg.trimStart_append]
    refine Text.trimStart_of_startsBlank_eq_false ?_
    cases hrest : line.trimStart with
    | nil => exact hblank
    | cons d others =>
        have := Text.startsBlank_trimStart line
        rwa [hrest] at this
  rw [htrim]
  cases hrest : line.trimStart with
  | nil => simp [startsLineComment_cons, hdash]
  | cons d others =>
      rw [hrest, startsLineComment_cons] at hstart
      rw [List.cons_append, startsLineComment_cons]
      cases others with
      | nil => simp [hdash]
      | cons e others => simpa using hstart

namespace EndsInCode

/-- Behind a text that breaks off in code, what makes no mark with its last character is cleaned
on its own, as from within a line. -/
theorem ofText_append (h : EndsInCode marks t) (hblank : isBlank c = false) (hdash : c ≠ '-')
    (hstar : c ≠ '*') (x : Text) :
    ofText marks (t ++ c :: x) = (ofText marks t).append (ofRest marks (.code none) (c :: x)) := by
  have hline := Text.feed_not_mem_openLine t
  have hfeed : c ≠ '\n' := Text.ne_of_isBlank hblank rfl
  have hpasses := passes_append (x := c :: x) hline h (by simpa using hdash)
    (by simpa using hstar)
  rw [ofText_append_of_passes _ hpasses, ofText_eq_of_openLine h.directive]
  · simp [append, behind]
  · rw [Text.firstLine_append hline, Text.firstLine_cons hfeed]
    exact directive?_append (startsLine_openPlace marks t) hline h hdash hblank marks _

/-- A block comment leaves its line feeds and a blank. -/
theorem ofText_append_blockComment (h : EndsInCode marks t) (hcomment : ¬ commentEnd <:+: comment)
    (x : Text) : ofText marks (t ++ '/' :: '*' :: (comment ++ '*' :: '/' :: x)) =
      (ofText marks t).append ((ofRest marks (.code none) x).behind
        (List.replicate (comment.count '\n') '\n' ++ [' '])) := by
  rw [h.ofText_append rfl (by decide) (by decide),
    (Passes.step .openBlock (passes_blockComment hcomment x)).ofRest_eq]
  rfl

/-- A line comment that is no directive leaves nothing. -/
theorem exists_ofText_append_lineComment (h : EndsInCode marks t) (x : Text) :
    ∃ cleaned, ∀ comment : Text, '\n' ∉ comment →
      endsInDirective marks (t ++ '-' :: '-' :: comment) = false →
      ofText marks (t ++ '-' :: '-' :: (comment ++ '\n' :: x)) = cleaned := by
  have hopen := Text.feed_not_mem_openLine t
  obtain ⟨kept, hpasses⟩ := exists_passes_lineComment hopen h
  refine ⟨(ofText marks t.closedLines).append
    ((ofRest marks .lineComment ('\n' :: x)).behind kept), fun comment hcomment hline => ?_⟩
  have hmark : '\n' ∉ '-' :: '-' :: comment := by simpa using hcomment
  rw [endsInDirective_append hmark, Option.isSome_eq_false_iff, Option.isNone_iff_eq_none] at hline
  refine ofText_append_of_passes ?_ (hpasses comment ('\n' :: x) hcomment)
  rw [Text.firstLine_append hopen, ← List.cons_append, ← List.cons_append,
    (Text.firstLine_append_feed hmark x).1, hline]

end EndsInCode
end Cleaned
end DdlDiagram
