import DdlDiagram.Proofs.Cleaned.CommentFree
import DdlDiagram.Proofs.Cleaned.Strip

/-!
# Stripping in steps

A step passes one character, or one mark of a comment, within a line or within a block comment.
It keeps some text of its own and leads to a place, from which the rest is stripped. Whatever
stripping does with a token it does in steps, so what a step keeps up is kept up along a token.
-/

namespace DdlDiagram

/-- Whether a token is no quoted run over several lines. -/
def Token.staysOnLine : Token → Bool
  | quoted run => !run.contains '\n'
  | _ => true

namespace Cleaned

open Token

/-- One step of stripping: a place and the text there, what is kept, and the place and the text
behind it. -/
inductive Step : Place → Text → Text → Place → Text → Prop where
  | quoted {q : Quote} {c : Char} {t : Text} : c ≠ '\n' → q.covers c = true →
      Step (.code q) (c :: t) [c] (.code (q.after c)) t
  | plain {c : Char} {t : Text} : c ≠ '\n' → isQuote c = false →
      startsLineComment (c :: t) = false → startsBlockComment (c :: t) = false →
      Step (.code none) (c :: t) [c] (.code none) t
  | openLine {t : Text} : Step (.code none) ('-' :: '-' :: t) [] .lineComment t
  | openBlock {t : Text} : Step (.code none) ('/' :: '*' :: t) [] .blockComment t
  | inLine {c : Char} {t : Text} : c ≠ '\n' → Step .lineComment (c :: t) [] .lineComment t
  | inBlock {c : Char} {t : Text} : c ≠ '\n' → ¬ commentEnd <+: c :: t →
      Step .blockComment (c :: t) [] .blockComment t
  | feed {t : Text} : Step .blockComment ('\n' :: t) ['\n'] .blockComment t
  | closeBlock {t : Text} : Step .blockComment ('*' :: '/' :: t) [' '] (.code none) t

/-- Any number of steps. -/
inductive Passes : Place → Text → Text → Place → Text → Prop where
  | refl (place : Place) (t : Text) : Passes place t [] place t
  | step {place next last : Place} {t u rest kept others : Text} : Step place t kept next u →
      Passes next u others last rest → Passes place t (kept ++ others) last rest

variable {place next last : Place} {c quote : Char} {s t u rest kept others : Text}

theorem Step.strip_eq (h : Step place t kept next u) :
    strip place t = (strip next u).map (kept ++ ·) id := by
  cases h with
  | quoted hc hcovers => rw [strip_code_cons, if_neg hc, if_pos hcovers]; rfl
  | plain hc hquote hline hblock =>
      rw [strip_code_cons_of_keeps hc fun _ => ⟨hline, hblock⟩, Quote.after,
        if_neg (by simp [hquote])]
      rfl
  | openLine => rfl
  | openBlock => rfl
  | inLine hc => exact (strip.eq_4 _ _).trans (if_neg hc)
  | inBlock hc hend => rw [strip_blockComment_cons, if_neg hend, if_neg hc]
  | feed => exact strip_feed_cons .blockComment u
  | closeBlock =>
      rw [strip_blockComment_cons, if_pos ⟨u, rfl⟩, List.drop_one, List.tail_cons]
      rfl

/-- Stripping keeps what the steps keep, and goes on behind them. -/
theorem Passes.strip_eq (h : Passes place t kept next u) :
    strip place t = (strip next u).map (kept ++ ·) id := by
  induction h with
  | refl place t => rfl
  | step hstep _ ih => rw [hstep.strip_eq, ih]; simp [Prod.map]

theorem Passes.trans (h : Passes place t kept next u) (h' : Passes next u others last rest) :
    Passes place t (kept ++ others) last rest := by
  induction h with
  | refl place t => exact h'
  | step hstep _ ih => rw [List.append_assoc]; exact .step hstep (ih h')

theorem Step.passes (h : Step place t kept next u) : Passes place t kept next u := by
  rw [← List.append_nil kept]
  exact .step h (.refl next u)

theorem passes_wordRun (t : Text) :
    Passes (.code none) t (wordRun t).1 (.code none) (wordRun t).2 := by
  induction t with
  | nil => exact .refl _ _
  | cons c rest ih =>
      rw [wordRun]
      split
      · exact .refl _ _
      · rename_i hend
        rw [Bool.not_eq_true, endsWord, Bool.or_eq_false_iff, Bool.or_eq_false_iff,
          Bool.or_eq_false_iff, Bool.or_eq_false_iff] at hend
        obtain ⟨⟨⟨⟨hblank, -⟩, hquote⟩, hline⟩, hblock⟩ := hend
        have hc : c ≠ '\n' := Text.ne_of_isBlank hblank rfl
        exact .step (.plain hc hquote hline hblock) ih

theorem step_open (hquote : isQuote quote = true) (t : Text) :
    Step (.code none) (quote :: t) [quote] (.code (some quote)) t := by
  rw [← Quote.after_open hquote]
  exact .quoted (ne_feed_of_isQuote hquote) hquote

theorem step_close (hquote : isQuote quote = true) (t : Text) :
    Step (.code (some quote)) (quote :: t) [quote] (.code none) t := by
  rw [← Quote.after_close quote]
  exact .quoted (ne_feed_of_isQuote hquote) rfl

theorem step_quoted (hc : c ≠ quote) (hfeed : c ≠ '\n') (t : Text) :
    Step (.code (some quote)) (c :: t) [c] (.code (some quote)) t := by
  have hafter : Quote.after (some quote) c = some quote := if_neg hc
  have hstep : Step (.code (some quote)) (c :: t) [c] (.code (Quote.after (some quote) c)) t :=
    .quoted hfeed rfl
  rwa [hafter] at hstep

/-- A quoted run on one line is kept up to its closing quote. -/
theorem passes_closedRun (hquote : isQuote quote = true) (h : ClosedRun quote s)
    (hfeed : '\n' ∉ s) (rest : Text) :
    Passes (.code (some quote)) (s ++ rest) s (.code none) rest := by
  induction h with
  | close => exact (step_close hquote rest).passes
  | @escape t _ ih =>
      have ht : '\n' ∉ t := fun hmem => hfeed (by simp [hmem])
      exact .step (step_close hquote _) (.step (step_open hquote _) (ih ht))
  | char hc _ ih =>
      rw [List.mem_cons, not_or] at hfeed
      exact .step (step_quoted hc (Ne.symm hfeed.1) _) (ih hfeed.2)

theorem passes_openRun (hquote : isQuote quote = true) (h : OpenRun quote s) (hfeed : '\n' ∉ s) :
    Passes (.code (some quote)) s s (.code (some quote)) [] := by
  induction h with
  | nil => exact .refl _ _
  | @escape t _ ih =>
      have ht : '\n' ∉ t := fun hmem => hfeed (by simp [hmem])
      exact .step (step_close hquote _) (.step (step_open hquote _) (ih ht))
  | char hc _ ih =>
      rw [List.mem_cons, not_or] at hfeed
      exact .step (step_quoted hc (Ne.symm hfeed.1) _) (ih hfeed.2)

/-- Of a line comment nothing is kept. -/
theorem passes_lineComment (hfeed : '\n' ∉ s) (rest : Text) :
    Passes .lineComment (s ++ rest) [] .lineComment rest := by
  induction s with
  | nil => exact .refl _ _
  | cons c s ih =>
      rw [List.mem_cons, not_or] at hfeed
      exact .step (.inLine (Ne.symm hfeed.1)) (ih hfeed.2)

/-- A character of a block comment leaves a gap at most. -/
theorem step_blockComment (hend : ¬ commentEnd <+: c :: t) :
    ∃ g, Text.IsGap g ∧ Step .blockComment (c :: t) g .blockComment t := by
  by_cases hc : c = '\n'
  · exact ⟨['\n'], Text.isGap_feed, hc ▸ .feed⟩
  · exact ⟨[], Text.isGap_nil, .inBlock hc hend⟩

theorem passes_closedComment (h : ClosedComment s) (rest : Text) :
    ∃ g, Text.IsGap g ∧ Passes .blockComment (s ++ rest) g (.code none) rest := by
  induction h with
  | close => exact ⟨[' '], Text.isGap_space, Step.closeBlock.passes⟩
  | @char c t hend ht ih =>
      obtain ⟨g, hg, hpasses⟩ := ih
      have hmark : ¬ commentEnd <+: c :: (t ++ rest) := fun hpre =>
        hend (List.prefix_of_prefix_length_le hpre (List.prefix_append (c :: t) rest)
          (Nat.le_succ_of_le ht.two_le_length))
      obtain ⟨g', hg', hstep⟩ := step_blockComment hmark
      exact ⟨g' ++ g, Text.isGap_append.2 ⟨hg', hg⟩, .step hstep hpasses⟩

theorem passes_openComment (h : ¬ commentEnd <:+: s) :
    ∃ g, Text.IsGap g ∧ Passes .blockComment s g .blockComment [] := by
  induction s with
  | nil => exact ⟨[], Text.isGap_nil, .refl _ _⟩
  | cons c s ih =>
      rw [List.infix_cons_iff, not_or] at h
      obtain ⟨g, hg, hpasses⟩ := ih h.2
      obtain ⟨g', hg', hstep⟩ := step_blockComment h.1
      exact ⟨g' ++ g, Text.isGap_append.2 ⟨hg', hg⟩, .step hstep hpasses⟩

/-- From such a place a text is stripped as from outside of comments: it is outside of them, or
the text ends the line comment, or nothing is left. -/
def Resumes (place : Place) (rest : Text) : Prop :=
  place = .code none ∨ rest = [] ∨ place = .lineComment ∧ rest.head? = some '\n'

theorem Resumes.strip_fst (h : Resumes place rest) :
    (strip place rest).1 = (strip (.code none) rest).1 := by
  rcases h with rfl | rfl | ⟨rfl, hhead⟩
  · rfl
  · rw [strip_nil, strip_nil]
  · obtain ⟨u, rfl⟩ := List.head?_eq_some_iff.1 hhead
    rw [strip_feed_cons, strip_feed_cons]
    rfl

theorem exists_passes_quotedRun (hquote : isQuote quote = true)
    (hfeed : '\n' ∉ (quotedRun quote t).1) : ∃ next,
      Passes (.code none) (quote :: t) (quote :: (quotedRun quote t).1) next (quotedRun quote t).2 ∧
        Resumes next (quotedRun quote t).2 := by
  have hsplit := quotedRun_append quote t
  rcases quotedRun_closed_or_open quote t with ⟨hrun, -⟩ | ⟨hrun, hrest⟩
  · have hpasses := passes_closedRun hquote hrun hfeed (quotedRun quote t).2
    rw [hsplit] at hpasses
    exact ⟨_, .step (step_open hquote t) hpasses, .inl rfl⟩
  · have hpasses := passes_openRun hquote hrun hfeed
    rw [hrest, List.append_nil] at hsplit
    rw [hsplit] at hpasses
    rw [hrest, hsplit]
    exact ⟨_, .step (step_open hquote t) hpasses, .inr (.inl rfl)⟩

/-- A line comment ends in front of the feed of its line. -/
theorem passes_lineRun (t : Text) :
    Passes .lineComment t [] .lineComment (t.dropWhile (· != '\n')) ∧
      Resumes .lineComment (t.dropWhile (· != '\n')) := by
  have hfeed : '\n' ∉ t.takeWhile (· != '\n') := fun hmem => by
    simpa using List.mem_takeWhile_imp hmem
  have hpasses := passes_lineComment hfeed (t.dropWhile (· != '\n'))
  rw [List.takeWhile_append_dropWhile] at hpasses
  refine ⟨hpasses, .inr ?_⟩
  cases hrest : t.dropWhile (· != '\n') with
  | nil => exact .inl rfl
  | cons c others =>
      have hc := List.head?_dropWhile_not (· != '\n') t
      simp only [hrest, List.head?_cons, bne_eq_false_iff_eq] at hc
      exact .inr ⟨rfl, congrArg some hc⟩

theorem exists_passes_commentRun (t : Text) :
    ∃ g next, Text.IsGap g ∧ Passes .blockComment t g next (commentRun t).2 ∧
      Resumes next (commentRun t).2 := by
  have hsplit := commentRun_append t
  rcases commentRun_closed_or_open t with hrun | ⟨hrun, hrest⟩
  · obtain ⟨g, hg, hpasses⟩ := passes_closedComment hrun (commentRun t).2
    rw [hsplit] at hpasses
    exact ⟨g, _, hg, hpasses, .inl rfl⟩
  · obtain ⟨g, hg, hpasses⟩ := passes_openComment hrun
    rw [hrest, List.append_nil] at hsplit
    rw [hsplit] at hpasses
    rw [hrest]
    exact ⟨g, _, hg, hpasses, .inr (.inl rfl)⟩

/-- What stripping keeps of a token: of a comment at most a gap, of other tokens everything. -/
def Keeps (token : Token) (kept : Text) : Prop :=
  if token.isComment then Text.IsGap kept else kept = token.source

/-- Tokens are stripped in steps, provided that a quoted run stays on its line. -/
theorem exists_passes_of_next? {token : Token} (hblank : t.startsBlank = false)
    (hnext : next? t = some (token, rest)) (hline : token.staysOnLine = true) :
    ∃ kept next, Keeps token kept ∧ Passes (.code none) t kept next rest ∧ Resumes next rest := by
  have hdelimiter : ∀ {c : Char} (t : Text), isBreak c = true → isQuote c = false → c ≠ '\n' →
      Passes (.code none) (c :: t) [c] (.code none) t := by
    intro c t hc hquote hfeed
    obtain ⟨hdash, hslash⟩ := ne_of_isBreak hc
    obtain ⟨hline, hblock⟩ := marks_of_ne hdash hslash t
    exact (Step.plain hfeed hquote hline hblock).passes
  cases reads_of_next? hnext with
  | openParen => exact ⟨_, _, rfl, hdelimiter rest rfl rfl (by decide), .inl rfl⟩
  | closeParen => exact ⟨_, _, rfl, hdelimiter rest rfl rfl (by decide), .inl rfl⟩
  | comma => exact ⟨_, _, rfl, hdelimiter rest rfl rfl (by decide), .inl rfl⟩
  | semicolon => exact ⟨_, _, rfl, hdelimiter rest rfl rfl (by decide), .inl rfl⟩
  | @quoted quote hquote t =>
      have hrun : '\n' ∉ (quotedRun quote t).1 := by
        rw [staysOnLine] at hline
        simp_all
      obtain ⟨next, hpasses, hresumes⟩ := exists_passes_quotedRun hquote hrun
      exact ⟨_, next, rfl, hpasses, hresumes⟩
  | lineComment t =>
      obtain ⟨hpasses, hresumes⟩ := passes_lineRun t
      exact ⟨_, _, Text.isGap_nil, .step .openLine hpasses, hresumes⟩
  | blockComment t =>
      obtain ⟨g, next, hg, hpasses, hresumes⟩ := exists_passes_commentRun t
      exact ⟨_, next, hg, .step .openBlock hpasses, hresumes⟩
  | @word c t _ hquote hstart hblock =>
      have hfeed : c ≠ '\n' := Text.ne_of_isBlank hblank rfl
      exact ⟨_, _, rfl, .step (.plain hfeed hquote hstart hblock) (passes_wordRun t), .inl rfl⟩

end Cleaned
end DdlDiagram
