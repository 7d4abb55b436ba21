import DdlDiagram.Proofs.Cleaned.Lines
import DdlDiagram.Proofs.Cleaned.Steps

/-!
# Cleaning from within a line

Whether a line is a directive is decided at its start. From any later point on, the rest of the
line is stripped and the lines behind it are cleaned, and this goes along with the steps of
stripping. So a text that breaks off in code, that is outside of comments, directives and quoted
runs, is cleaned apart from what is written on behind it.
-/

namespace DdlDiagram

open Token

variable {t u g rest line : Text} {c : Char} {place next : Place} {kept : Text}
variable {marks : List Text}

namespace Text

def firstLine (t : Text) : Text := t.takeWhile (· != '\n')

def behindFirstLine (t : Text) : Text := t.dropWhile (· != '\n')

theorem firstLine_cons (hc : c ≠ '\n') (t : Text) : firstLine (c :: t) = c :: t.firstLine :=
  List.takeWhile_cons_of_pos (by simp [hc])

theorem behindFirstLine_cons (hc : c ≠ '\n') (t : Text) :
    behindFirstLine (c :: t) = t.behindFirstLine := List.dropWhile_cons_of_pos (by simp [hc])

theorem firstLine_of_not_mem (hline : '\n' ∉ line) :
    line.firstLine = line ∧ line.behindFirstLine = [] := by
  have hpass : ∀ c ∈ line, (c != '\n') = true := by
    intro c hc
    simpa using fun heq : c = '\n' => hline (heq ▸ hc)
  exact ⟨List.takeWhile_eq_self_iff.2 hpass, List.dropWhile_eq_nil_iff.2 hpass⟩

theorem firstLine_append_feed (hline : '\n' ∉ line) (t : Text) :
    (line ++ '\n' :: t).firstLine = line ∧ (line ++ '\n' :: t).behindFirstLine = '\n' :: t := by
  have hpass : ∀ c ∈ line, (c != '\n') = true := by
    intro c hc
    simpa using fun heq : c = '\n' => hline (heq ▸ hc)
  have hstop : ∀ c, ('\n' :: t).head? = some c → (c != '\n') = false := by
    intro c hc
    simp [← Option.some.inj hc]
  exact ⟨takeWhile_append_of_head? hpass hstop, dropWhile_append_of_head? hpass hstop⟩

theorem head?_firstLine (hc : c ≠ '\n') (t : Text) :
    (t.firstLine.head? == some c) = (t.head? == some c) := by
  cases t with
  | nil => rfl
  | cons d rest =>
      by_cases hd : d = '\n'
      · simp [firstLine, hd, Ne.symm hc]
      · rw [firstLine_cons hd]
        rfl

end Text

namespace Cleaned

def behind (front : Text) (cleaned : Cleaned) : Cleaned :=
  { cleaned with text := front ++ cleaned.text }

theorem behind_behind (front middle : Text) (cleaned : Cleaned) :
    (cleaned.behind middle).behind front = cleaned.behind (front ++ middle) := by
  simp [behind]

/-- What a text is cleaned to from within a line that is no directive: the rest of the line is
stripped, and the lines behind it are cleaned. -/
def ofRest (marks : List Text) (place : Place) (t : Text) : Cleaned :=
  match t.behindFirstLine with
  | [] => ⟨(strip place t.firstLine).1, [], (strip place t.firstLine).2⟩
  | _ :: others =>
    (ofLines marks (strip place t.firstLine).2.afterFeed (Text.lines others)).behind
      ((strip place t.firstLine).1 ++ ['\n'])

theorem ofRest_of_not_mem (hline : '\n' ∉ line) (marks : List Text) (place : Place) :
    ofRest marks place line = ⟨(strip place line).1, [], (strip place line).2⟩ := by
  rw [ofRest, (Text.firstLine_of_not_mem hline).1, (Text.firstLine_of_not_mem hline).2]

theorem ofRest_append_feed (hline : '\n' ∉ line) (marks : List Text) (place : Place) (t : Text) :
    ofRest marks place (line ++ '\n' :: t) =
      (ofLines marks (strip place line).2.afterFeed t.lines).behind
        ((strip place line).1 ++ ['\n']) := by
  obtain ⟨hfirst, hbehind⟩ := Text.firstLine_append_feed hline t
  rw [ofRest, hfirst, hbehind]

/-- A text whose first line is no directive is cleaned as from within a line. -/
theorem ofLines_eq_ofRest (h : directive? marks place t.firstLine = none) :
    ofLines marks place t.lines = ofRest marks place t := by
  induction t using Text.line_induction with
  | last line hline =>
      rw [(Text.firstLine_of_not_mem hline).1] at h
      rw [ofRest_of_not_mem hline]
      by_cases hne : line = []
      · rw [hne, strip_nil]
        rfl
      · rw [Text.lines_of_not_mem hline hne, ofLines_cons_none h]
        simp [ofLines]
  | feed line rest hline _ =>
      rw [(Text.firstLine_append_feed hline rest).1] at h
      rw [ofRest_append_feed hline, Text.lines_append_feed hline,
        ofLines_cons_none ((directive?_append_feed marks place line).trans h),
        strip_append_singleton_feed]
      rfl

theorem ofRest_blockComment (marks : List Text) (t : Text) :
    ofRest marks .blockComment t = ofLines marks .blockComment t.lines :=
  (ofLines_eq_ofRest rfl).symm

/-- Blanks within a line are kept outside of comments. -/
theorem passes_gap (hg : Text.IsGap g) (hline : '\n' ∉ g) (t : Text) :
    Passes (.code none) (g ++ t) g (.code none) t := by
  induction g with
  | nil => exact .refl _ _
  | cons c rest ih =>
      obtain ⟨hc, hrest⟩ := Text.isGap_cons.1 hg
      rw [List.mem_cons, not_or] at hline
      obtain ⟨hdash, hslash⟩ := ne_of_isBreak (c := c) (by simp [isBreak, hc])
      obtain ⟨hstart, hblock⟩ := marks_of_ne hdash hslash (rest ++ t)
      exact .step (.plain (Ne.symm hline.1) (not_isQuote_of_isBlank hc) hstart hblock)
        (ih hrest hline.2)

/-- A line that starts with a line comment ends within it. -/
theorem strip_of_startsLineComment (hline : '\n' ∉ line)
    (h : startsLineComment line.trimStart = true) :
    (strip (.code none) line).2 = .lineComment := by
  obtain ⟨g, hg, hsplit⟩ := Text.exists_gap_append_trimStart line
  obtain ⟨u, hu⟩ := List.isPrefixOf_iff_prefix.1 h
  rw [← hu] at hsplit
  have hmem : ∀ c, c ∈ g ++ ("--".toList ++ u) → c ∈ line := fun c hc => hsplit ▸ hc
  have hfeed : '\n' ∉ g := fun hc => hline (hmem _ (List.mem_append_left _ hc))
  have hfeed' : '\n' ∉ u := fun hc =>
    hline (hmem _ (List.mem_append_right _ (List.mem_append_right _ hc)))
  have hcomment := passes_lineComment hfeed' []
  rw [List.append_nil] at hcomment
  have hpasses := (passes_gap hg hfeed _).trans (.step .openLine hcomment)
  rw [hsplit]
  exact congrArg Prod.snd hpasses.strip_eq

/-- A step within a line does not depend on the lines behind it. -/
theorem Step.firstLine (h : Step place t kept next u) (ht : t.head? ≠ some '\n') :
    Step place t.firstLine kept next u.firstLine ∧ t.behindFirstLine = u.behindFirstLine := by
  cases h with
  | quoted hc hcovers =>
      rw [Text.firstLine_cons hc, Text.behindFirstLine_cons hc]
      exact ⟨.quoted hc hcovers, rfl⟩
  | plain hc hquote hline hblock =>
      rw [Text.firstLine_cons hc, Text.behindFirstLine_cons hc]
      rw [startsLineComment_cons, ← Text.head?_firstLine (by decide), ← startsLineComment_cons]
        at hline
      rw [startsBlockComment_cons, ← Text.head?_firstLine (by decide), ← startsBlockComment_cons]
        at hblock
      exact ⟨.plain hc hquote hline hblock, rfl⟩
  | openLine => exact ⟨.openLine, rfl⟩
  | openBlock => exact ⟨.openBlock, rfl⟩
  | inLine hc =>
      rw [Text.firstLine_cons hc, Text.behindFirstLine_cons hc]
      exact ⟨.inLine hc, rfl⟩
  | inBlock hc hend =>
      rw [Text.firstLine_cons hc, Text.behindFirstLine_cons hc]
      have hpre := List.takeWhile_prefix (· != '\n') (l := u)
      exact ⟨.inBlock hc fun hmark => hend (hmark.trans (List.cons_prefix_cons.2 ⟨rfl, hpre⟩)), rfl⟩
  | feed => exact absurd rfl ht
  | closeBlock => exact ⟨.closeBlock, rfl⟩

/-- A step keeps what it keeps in front of what the rest is cleaned to. -/
theorem Step.ofRest_eq (h : Step place t kept next u) (marks : List Text) :
    ofRest marks place t = (ofRest marks next u).behind kept := by
  by_cases ht : t.head? = some '\n'
  · cases h with
    | feed =>
        have hrest := ofRest_append_feed List.not_mem_nil marks .blockComment u
        rw [List.nil_append, strip_nil] at hrest
        rw [hrest, ofRest_blockComment]
        rfl
    | quoted hc => exact absurd (Option.some.inj ht) hc
    | plain hc => exact absurd (Option.some.inj ht) hc
    | inLine hc => exact absurd (Option.some.inj ht) hc
    | inBlock hc => exact absurd (Option.some.inj ht) hc
    | _ => simp at ht
  · obtain ⟨hstep, hbehind⟩ := h.firstLine ht
    rw [ofRest, ofRest, hstep.strip_eq, hbehind]
    split
    · rfl
    · simp [behind_behind]

theorem Passes.ofRest_eq (h : Passes place t kept next u) (marks : List Text) :
    ofRest marks place t = (ofRest marks next u).behind kept := by
  induction h with
  | refl place t => rfl
  | step hstep _ ih => rw [hstep.ofRest_eq, ih, behind_behind]

end Cleaned
end DdlDiagram
