import DdlDiagram.Proofs.Cleaned.Unmarked
import DdlDiagram.Proofs.Layout.Fidelity
import DdlDiagram.Proofs.Respaced.Layout

/-!
# Texts without comment tokens

The reader of tokens and the cleaning of a text do not agree on every comment: for tokens a quoted
run may extend over lines, for cleaning it ends with its line. If no quoted run holds a line feed,
or none holds the mark of a comment, cleaning finds no comment where there is no comment token.
-/

namespace DdlDiagram

open Cleaned Layout

variable {q : Quote} {t rest w : Text} {token : Token} {c quote : Char}

namespace Token

theorem startsLineComment_of_forall (hfree : ∀ token ∈ tokens t, token.isComment = false) :
    startsLineComment t = false := by
  cases hblank : t.startsBlank with
  | true =>
      cases t with
      | nil => rfl
      | cons c rest =>
          have hc : c ≠ '-' := Text.ne_of_isBlank hblank rfl
          simp [startsLineComment_cons, hc]
  | false =>
      cases hnext : next? t with
      | none =>
          cases t with
          | nil => rfl
          | cons c rest => exact absurd hnext (next?_ne_none c rest)
      | some pair =>
          by_contra hline
          obtain ⟨u, hu⟩ := eq_lineComment_of_startsLineComment (Bool.not_eq_false _ ▸ hline) hnext
          have htokens : tokens t = pair.1 :: tokens pair.2 :=
            tokens_append Text.isGap_nil hblank hnext
          have hcomment := hfree pair.1 (htokens ▸ List.mem_cons_self)
          rw [hu] at hcomment
          exact Bool.noConfusion hcomment

/-- Within a word no comment starts, and none where it ends. -/
theorem marks_of_endsWord (h : endsWord (c :: t) = false) :
    startsLineComment (c :: t) = false ∧ startsBlockComment (c :: t) = false := by
  rw [endsWord, Bool.or_eq_false_iff, Bool.or_eq_false_iff] at h
  exact ⟨h.1.2, h.2⟩

theorem marks_of_ne (hdash : c ≠ '-') (hslash : c ≠ '/') (t : Text) :
    startsLineComment (c :: t) = false ∧ startsBlockComment (c :: t) = false := by
  simp [startsLineComment_cons, startsBlockComment_cons, hdash, hslash]

theorem ne_of_isBreak (h : isBreak c = true) : c ≠ '-' ∧ c ≠ '/' := by
  constructor
  · rintro rfl
    exact absurd h (by decide)
  · rintro rfl
    exact absurd h (by decide)

theorem ne_feed_of_isQuote (h : isQuote c = true) : c ≠ '\n' := by
  rintro rfl
  exact absurd h (by decide)

theorem isComment_trimmed (token : Token) : token.trimmed.isComment = token.isComment := by
  cases token <;> rfl

end Token

namespace Cleaned

theorem quoteAfter_none (hc : isQuote c = false) : quoteAfter none c = none := by
  simp [quoteAfter, Quote.after, hc]

/-- A character that is no quote, in front of a text without comments. -/
theorem Unmarked.cons (hc : isQuote c = false)
    (hmarks : Token.startsLineComment (c :: t) = false ∧ Token.startsBlockComment (c :: t) = false)
    (h : Unmarked none t) : Unmarked none (c :: t) := by
  refine ⟨fun _ => hmarks, ?_⟩
  rw [quoteAfter_none hc]
  exact h

theorem Unmarked.gap_append {g : Text} (hg : Text.IsGap g) (h : Unmarked none t) :
    Unmarked none (g ++ t) := by
  induction g with
  | nil => exact h
  | cons c rest ih =>
      obtain ⟨hc, hrest⟩ := Text.isGap_cons.1 hg
      obtain ⟨hdash, hslash⟩ := Token.ne_of_isBreak (c := c) (by simp [Token.isBreak, hc])
      exact .cons (Token.not_isQuote_of_isBlank hc) (Token.marks_of_ne hdash hslash _) (ih hrest)

theorem Unmarked.word_append (hw : Token.IsWordRun w) (hend : Token.endsWord rest = true)
    (hdash : Token.startsLineComment rest = false) (h : Unmarked none rest) :
    Unmarked none (w ++ rest) := by
  have hquotes : ∀ c ∈ w, isQuote c = false := fun c hc => by
    have hbreak := hw.isBreak_eq_false c hc
    rw [Token.isBreak, Bool.or_eq_false_iff] at hbreak
    exact hbreak.2
  induction w with
  | nil => exact h
  | cons c others ih =>
      obtain ⟨hc, hothers⟩ := List.forall_mem_cons.1 hquotes
      have hmarks := Token.marks_of_endsWord (Token.endsWord_cons_append hw.1 hend hdash)
      exact .cons hc hmarks (ih hw.2 hothers)

theorem unmarked_open (hquote : isQuote quote = true) (h : Unmarked (some quote) t) :
    Unmarked none (quote :: t) := by
  have hafter : quoteAfter none quote = some quote := by
    rw [quoteAfter, if_neg (Token.ne_feed_of_isQuote hquote), Quote.after_open hquote]
  refine ⟨fun hcovers => absurd (hquote.symm.trans hcovers) Bool.noConfusion, ?_⟩
  rw [hafter]
  exact h

theorem unmarked_close (hquote : isQuote quote = true) (h : Unmarked none t) :
    Unmarked (some quote) (quote :: t) := by
  have hafter : quoteAfter (some quote) quote = none := by
    rw [quoteAfter, if_neg (Token.ne_feed_of_isQuote hquote), Quote.after_close]
  refine ⟨fun hcovers => absurd hcovers Bool.noConfusion, ?_⟩
  rw [hafter]
  exact h

theorem unmarked_char (hc : c ≠ quote) (hfeed : c ≠ '\n') (h : Unmarked (some quote) t) :
    Unmarked (some quote) (c :: t) := by
  have hafter : quoteAfter (some quote) c = some quote := by
    rw [quoteAfter, if_neg hfeed]
    exact if_neg hc
  refine ⟨fun hcovers => absurd hcovers Bool.noConfusion, ?_⟩
  rw [hafter]
  exact h

/-- A quoted run on a line hides what it holds, and ends where the token does. -/
theorem unmarked_closedRun {run : Text} (hrun : Token.ClosedRun quote run)
    (hquote : isQuote quote = true) (hline : '\n' ∉ run) (h : Unmarked none rest) :
    Unmarked (some quote) (run ++ rest) := by
  induction hrun with
  | close => exact unmarked_close hquote h
  | escape _ ih =>
      refine unmarked_close hquote (unmarked_open hquote (ih fun hmem => hline ?_))
      exact List.mem_cons_of_mem _ (List.mem_cons_of_mem _ hmem)
  | char hc _ ih =>
      rw [List.mem_cons, not_or] at hline
      exact unmarked_char hc (Ne.symm hline.1) (ih hline.2)

theorem unmarked_openRun {run : Text} (hrun : Token.OpenRun quote run)
    (hquote : isQuote quote = true) (hline : '\n' ∉ run) : Unmarked (some quote) run := by
  induction hrun with
  | nil => trivial
  | escape _ ih =>
      refine unmarked_close hquote (unmarked_open hquote (ih fun hmem => hline ?_))
      exact List.mem_cons_of_mem _ (List.mem_cons_of_mem _ hmem)
  | char hc _ ih =>
      rw [List.mem_cons, not_or] at hline
      exact unmarked_char hc (Ne.symm hline.1) (ih hline.2)

/-- Without comment tokens and without line feeds in quoted runs no comment is found. -/
theorem unmarked_of_lines (t : Text) (hfree : ∀ token ∈ tokens t, token.isComment = false)
    (hlines : ∀ run, Token.quoted run ∈ tokens t → '\n' ∉ run) : Unmarked none t := by
  refine Text.commentFree_induction
    (motive := fun t => (∀ run, Token.quoted run ∈ tokens t → '\n' ∉ run) → Unmarked none t)
    ?gap ?token t hfree hlines
  case gap =>
    intro g hg _
    rw [← List.append_nil g]
    exact Unmarked.gap_append hg trivial
  case token =>
    intro g token rest hg hread hcomment hblank hnext hothers ih hlines
    rw [tokens_append hg hblank hnext] at hlines
    have hrest := ih fun run hrun => hlines run (List.mem_cons_of_mem _ hrun)
    apply Unmarked.gap_append hg
    have hmark : ∀ c, Token.isBreak c = true → isQuote c = false → Unmarked none (c :: rest) := by
      intro c hc hquote
      obtain ⟨hdash, hslash⟩ := Token.ne_of_isBreak hc
      exact .cons hquote (Token.marks_of_ne hdash hslash _) hrest
    rcases hread with ⟨hwhole, hend⟩ | ⟨hcut, rfl⟩
    · cases hwhole with
      | word _ hrun =>
          exact .word_append hrun hend (Token.startsLineComment_of_forall hothers) hrest
      | quoted hquote hrun =>
          have hline := hlines _ List.mem_cons_self
          rw [List.mem_cons, not_or] at hline
          exact unmarked_open hquote (unmarked_closedRun hrun hquote hline.2 hrest)
      | lineComment => exact absurd hcomment Bool.noConfusion
      | blockComment => exact absurd hcomment Bool.noConfusion
      | openParen => exact hmark '(' rfl rfl
      | closeParen => exact hmark ')' rfl rfl
      | comma => exact hmark ',' rfl rfl
      | semicolon => exact hmark ';' rfl rfl
    · cases hcut with
      | blockComment => exact absurd hcomment Bool.noConfusion
      | quoted hquote hrun =>
          have hline := hlines _ List.mem_cons_self
          rw [List.mem_cons, not_or] at hline
          rw [List.append_nil]
          exact unmarked_open hquote (unmarked_openRun hrun hquote hline.2)

end Cleaned

namespace Layout

/-- No mark starts where neither of its characters stands. -/
theorem hasMark_cons (hmarks : Token.startsLineComment (c :: t) = false ∧
    Token.startsBlockComment (c :: t) = false) : hasMark (c :: t) = hasMark t := by
  rw [hasMark, hmarks.1, hmarks.2, Bool.or_self, Bool.false_or]

theorem hasMark_cons_of_isBreak (hc : Token.isBreak c = true) : hasMark (c :: t) = hasMark t :=
  hasMark_cons (Token.marks_of_ne (Token.ne_of_isBreak hc).1 (Token.ne_of_isBreak hc).2 t)

theorem hasMark_gap_append {g : Text} (hg : Text.IsGap g) (t : Text) :
    hasMark (g ++ t) = hasMark t := by
  induction g with
  | nil => rfl
  | cons c rest ih =>
      obtain ⟨hc, hrest⟩ := Text.isGap_cons.1 hg
      rw [List.cons_append, hasMark_cons_of_isBreak (by simp [Token.isBreak, hc]), ih hrest]

theorem hasMark_word_append (hw : Token.IsWordRun w) (hend : Token.endsWord rest = true)
    (hdash : Token.startsLineComment rest = false) : hasMark (w ++ rest) = hasMark rest := by
  induction w with
  | nil => rfl
  | cons c others ih =>
      have hmarks := Token.marks_of_endsWord (Token.endsWord_cons_append hw.1 hend hdash)
      rw [List.cons_append, hasMark_cons hmarks, ih hw.2]

/-- A closed run ends in its quote, with which no mark starts. -/
theorem hasMark_closedRun_append {run : Text} (hrun : Token.ClosedRun quote run)
    (hquote : isQuote quote = true) (h : hasMark run = false) :
    hasMark (run ++ rest) = hasMark rest := by
  have hbreak : Token.isBreak quote = true := by simp [Token.isBreak, hquote]
  induction hrun with
  | close => exact hasMark_cons_of_isBreak hbreak
  | escape _ ih =>
      rw [hasMark_cons_of_isBreak hbreak, hasMark_cons_of_isBreak hbreak] at h
      rw [List.cons_append, List.cons_append, hasMark_cons_of_isBreak hbreak,
        hasMark_cons_of_isBreak hbreak, ih h]
  | @char c run _ hrun ih =>
      rw [hasMark, Bool.or_eq_false_iff, Bool.or_eq_false_iff] at h
      have hmarks : Token.startsLineComment (c :: (run ++ rest)) = false ∧
          Token.startsBlockComment (c :: (run ++ rest)) = false := by
        have hhead : (run ++ rest).head? = run.head? := by
          cases hrun <;> rfl
        rw [Token.startsLineComment_cons, Token.startsBlockComment_cons] at h ⊢
        rw [hhead]
        exact h.1
      rw [List.cons_append, hasMark_cons hmarks, ih h.2]

/-- Without comment tokens and marks in quoted runs a text has no marks. -/
theorem hasMark_eq_false (t : Text) (hfree : ∀ token ∈ tokens t, token.isComment = false)
    (hmarks : ∀ run, Token.quoted run ∈ tokens t → hasMark run = false) : hasMark t = false := by
  refine Text.commentFree_induction
    (motive := fun t => (∀ run, Token.quoted run ∈ tokens t → hasMark run = false) →
      hasMark t = false) ?gap ?token t hfree hmarks
  case gap =>
    intro g hg _
    rw [← List.append_nil g, hasMark_gap_append hg]
    rfl
  case token =>
    intro g token rest hg hread hcomment hblank hnext hothers ih hmarks
    rw [tokens_append hg hblank hnext] at hmarks
    have hrest := ih fun run hrun => hmarks run (List.mem_cons_of_mem _ hrun)
    rw [hasMark_gap_append hg]
    have hmark : ∀ c, Token.isBreak c = true → hasMark (c :: rest) = false := by
      intro c hc
      rw [hasMark_cons_of_isBreak hc, hrest]
    rcases hread with ⟨hwhole, hend⟩ | ⟨hcut, rfl⟩
    · cases hwhole with
      | word _ hrun =>
          have hdash := Token.startsLineComment_of_forall hothers
          exact (hasMark_word_append hrun hend hdash).trans hrest
      | @quoted q run hquote hrun =>
          have hbreak : Token.isBreak q = true := by simp [Token.isBreak, hquote]
          have hhidden := hmarks _ List.mem_cons_self
          rw [hasMark_cons_of_isBreak hbreak] at hhidden
          change hasMark (q :: (run ++ rest)) = false
          rw [hasMark_cons_of_isBreak hbreak, hasMark_closedRun_append hrun hquote hhidden, hrest]
      | lineComment => exact absurd hcomment Bool.noConfusion
      | blockComment => exact absurd hcomment Bool.noConfusion
      | openParen => exact hmark '(' rfl
      | closeParen => exact hmark ')' rfl
      | comma => exact hmark ',' rfl
      | semicolon => exact hmark ';' rfl
    · cases hcut with
      | blockComment => exact absurd hcomment Bool.noConfusion
      | quoted hquote hrun =>
          rw [List.append_nil]
          exact hmarks _ List.mem_cons_self

theorem hasMark_of_append (h : hasMark (t ++ rest) = false) : hasMark t = false := by
  induction t with
  | nil => rfl
  | cons c others ih =>
      rw [List.cons_append, hasMark, Bool.or_eq_false_iff, Bool.or_eq_false_iff,
        Token.startsLineComment_cons, Token.startsBlockComment_cons] at h
      rw [hasMark, ih h.2, Token.startsLineComment_cons, Token.startsBlockComment_cons]
      cases others with
      | nil => simp
      | cons d more => simpa using h.1

end Layout

namespace Cleaned

theorem unmarked_of_hasMark (h : hasMark t = false) (q : Quote) : Unmarked q t := by
  induction t generalizing q with
  | nil => trivial
  | cons c rest ih =>
      rw [hasMark, Bool.or_eq_false_iff, Bool.or_eq_false_iff] at h
      exact ⟨fun _ => h.1, ih h.2 _⟩

/-- A text without comment tokens whose quotes are tidy has no comments. -/
theorem unmarked_of_quotesTidy (hfree : ∀ token ∈ tokens t, token.isComment = false)
    (hquotes : quotesTidy t = true) : Unmarked none t := by
  rcases (Bool.or_eq_true _ _).mp hquotes with hlines | hmarks
  · refine unmarked_of_lines t hfree fun run hrun => ?_
    simpa using List.all_eq_true.1 hlines _ hrun
  · refine unmarked_of_hasMark (hasMark_eq_false t hfree fun run hrun => ?_) none
    simpa using List.all_eq_true.1 hmarks _ hrun

end Cleaned

namespace Layout

/-- A layout has no comment tokens if its text has none. -/
theorem forall_isComment_format (hfree : ∀ token ∈ tokens t, token.isComment = false)
    (indent : Nat) : ∀ token ∈ tokens (t.format indent), token.isComment = false := by
  intro token htoken
  rw [Text.tokens_format] at htoken
  obtain ⟨original, horiginal, rfl⟩ := List.mem_map.1 htoken
  rw [Token.isComment_trimmed]
  exact hfree original horiginal

/-- A quoted run of a layout is one of the text, without the blanks at its end. -/
theorem exists_quoted_of_format {run : Text} {indent : Nat}
    (h : Token.quoted run ∈ tokens (t.format indent)) :
    ∃ original g, Token.quoted original ∈ tokens t ∧ original = run ++ g := by
  rw [Text.tokens_format] at h
  obtain ⟨original, horiginal, htrimmed⟩ := List.mem_map.1 h
  cases original with
  | quoted text =>
      obtain rfl : Text.trimEnd text = run := Token.quoted.inj htrimmed
      obtain ⟨g, -, hsplit⟩ := Text.exists_trimEnd_append_gap text
      exact ⟨text, g, horiginal, hsplit⟩
  | _ => exact nomatch htrimmed

theorem quotesTidy_format (h : quotesTidy t = true) (indent : Nat) :
    quotesTidy (t.format indent) = true := by
  rcases (Bool.or_eq_true _ _).mp h with hlines | hmarks
  · refine (Bool.or_eq_true _ _).mpr (.inl (List.all_eq_true.2 fun token htoken => ?_))
    cases token with
    | quoted run =>
        obtain ⟨original, g, horiginal, rfl⟩ := exists_quoted_of_format htoken
        have hline := List.all_eq_true.1 hlines _ horiginal
        simp only [Bool.not_eq_true', List.contains_eq_mem, decide_eq_false_iff_not,
          List.mem_append, not_or] at hline ⊢
        exact hline.1
    | _ => rfl
  · refine (Bool.or_eq_true _ _).mpr (.inr (List.all_eq_true.2 fun token htoken => ?_))
    cases token with
    | quoted run =>
        obtain ⟨original, g, horiginal, rfl⟩ := exists_quoted_of_format htoken
        have hmark := List.all_eq_true.1 hmarks _ horiginal
        simp only [Bool.not_eq_true'] at hmark ⊢
        exact hasMark_of_append hmark
    | _ => rfl

end Layout
end DdlDiagram
