import DdlDiagram.Proofs.Layout.Fidelity
import DdlDiagram.Proofs.Nesting.Uncut
import DdlDiagram.Proofs.Respaced.Rules

/-!
# A layout respaces its text

Laid out anew, a text without comments differs from what it was in gaps only, and its gaps follow
the rule of a text. The proof goes token by token. A gap of the layout is known from the two tokens
at its ends, and from what the rule sees of them: a delimiter is a token of its own, and the
characters at the ends of other tokens are no delimiters.
-/

namespace DdlDiagram

variable {c d b : Char} {t t' rest : Text} {token previous : Token} {depth : Depth} {q : Char}

namespace Token

/-- Whether a character may stand at an end of a token that is no comment. -/
def IsEdge (c : Char) : Token → Prop
  | openParen => c = '('
  | closeParen => c = ')'
  | comma => c = ','
  | semicolon => c = ';'
  | _ => isDelimiter c = false

end Token

namespace Layout

/-- A gap of a layout, as the rule of a text sees it. -/
theorem gap_eq_lineGap_or_mayBreak (hb : previous.IsEdge b) (hc : token.IsEdge c)
    (hcomment : previous.isComment = false) (hcomment' : token.isComment = false) (indent : Nat)
    (depth : Depth) (spaced : Bool) : MayBreak b c depth ∨
      gap indent depth previous ⟨token, spaced⟩ = lineGap b c spaced := by
  match depth with
  | 0 | 1 | n + 2 =>
      cases previous <;> cases token <;>
        simp_all [Token.IsEdge, Token.isComment, Token.isDelimiter, MayBreak, gap, gapInLine,
          breaksAfter, lineGap]

/-- Two texts that are respaced behind every character that is no delimiter. -/
def RespacedBehindPlain (depth : Depth) (t t' : Text) : Prop :=
  ∀ b, Token.isDelimiter b = false → Respaced textRule ⟨none, depth⟩ (some b) t t'

/-- Neighbours within a token have no gap between them, and get none. -/
theorem textRule_nil (hb : Token.isDelimiter b = false) (hc : Token.isDelimiter c = false)
    (s : Nesting) : textRule s (some b) (some c) [] [] := by
  intro b' hb' c' hc'
  obtain rfl := Option.some.inj hb'
  obtain rfl := Option.some.inj hc'
  have hgap : lineGap b c false = [] := lineGap_of_not_isDelimiter hb hc
  exact .inr hgap.symm

theorem after_of_not_isBreak (h : Token.isBreak c = false) (depth : Depth) :
    Nesting.after ⟨none, depth⟩ c = ⟨none, depth⟩ := by
  obtain ⟨-, hdelimiter, hquote⟩ := Token.isBreak_eq_false_iff.1 h
  simp only [Token.isDelimiter, Bool.or_eq_false_iff, beq_eq_false_iff_ne] at hdelimiter
  exact Nesting.after_plain hquote hdelimiter.1.1.1 hdelimiter.1.1.2

theorem after_closing (q : Char) (depth : Depth) :
    Nesting.after ⟨some q, depth⟩ q = ⟨none, depth⟩ := by
  simp [Nesting.after]

theorem RespacedBehindPlain.word_append {w : Text} (hw : ∀ c ∈ w, Token.isBreak c = false)
    (h : RespacedBehindPlain depth t t') : RespacedBehindPlain depth (w ++ t) (w ++ t') := by
  induction w with
  | nil => exact h
  | cons c rest ih =>
      intro b hb
      obtain ⟨hc, hrest⟩ := List.forall_mem_cons.1 hw
      obtain ⟨hblank, hdelimiter, -⟩ := Token.isBreak_eq_false_iff.1 hc
      exact .next_of_after rfl Text.isGap_nil Text.isGap_nil hblank
        (textRule_nil hb hdelimiter _) (after_of_not_isBreak hc depth) (ih hrest c hdelimiter)

/-- A quote within a run and the one that opens it again have nothing between them. -/
theorem respaced_reopened {p : Option Char} (hquote : isQuote q = true)
    (h : Respaced textRule ⟨some q, depth⟩ (some q) t t') :
    Respaced textRule ⟨some q, depth⟩ p (q :: q :: t) (q :: q :: t') := by
  have hdelimiter := Token.not_isDelimiter_of_isQuote hquote
  refine .quoted_of_after hquote (after_closing q depth) ?_
  exact .next_of_after rfl Text.isGap_nil Text.isGap_nil (Token.not_isBlank_of_isQuote hquote)
    (textRule_nil hdelimiter hdelimiter _) (Nesting.after_open_run hquote depth) h

theorem RespacedBehindPlain.closedRun_append {run : Text} (hrun : Token.ClosedRun q run)
    (hquote : isQuote q = true) (h : RespacedBehindPlain depth t t') (p : Option Char) :
    Respaced textRule ⟨some q, depth⟩ p (run ++ t) (run ++ t') := by
  induction hrun generalizing p with
  | close =>
      have hbehind := h q (Token.not_isDelimiter_of_isQuote hquote)
      exact .quoted_of_after hquote (after_closing q depth) hbehind
  | escape _ ih => exact respaced_reopened hquote (ih (some q))
  | @char c run hc _ ih =>
      exact .quoted_of_after hquote (Nesting.after_of_ne rfl hc) (ih (some c))

/-- A run that is open at the end of a text loses the blanks there. -/
theorem respaced_openRun {run : Text} (hrun : Token.OpenRun q run) (hquote : isQuote q = true)
    (p : Option Char) : Respaced textRule ⟨some q, depth⟩ p run run.trimEnd := by
  have hblank := Token.not_isBlank_of_isQuote hquote
  have hend : ∀ {s p g g'}, textRule s p none g g' := fun _ _ _ hd => nomatch hd
  induction hrun generalizing p with
  | nil => exact .gap hquote Text.isGap_nil Text.isGap_nil hend
  | escape _ ih =>
      rw [Text.trimEnd_cons_of_not_isBlank hblank, Text.trimEnd_cons_of_not_isBlank hblank]
      exact respaced_reopened hquote (ih (some q))
  | @char c run hc _ ih =>
      by_cases hgap : Text.IsGap (c :: run)
      · rw [hgap.trimEnd]
        exact .gap hquote hgap Text.isGap_nil hend
      · rw [Text.trimEnd_cons_of_not_isGap hgap]
        exact .quoted_of_after hquote (Nesting.after_of_ne rfl hc) (ih (some c))

end Layout

open Layout

/-- Behind a whole token that is no comment, texts that are respaced behind its last character
are respaced with the token in front of them, with gaps before it as the rule has them. -/
theorem Respaced.token_append {p : Option Char} {g g' : Text} (hwhole : token.Whole)
    (hcomment : token.isComment = false) (hg : Text.IsGap g) (hg' : Text.IsGap g')
    (hgap : ∀ c, token.IsEdge c → textRule ⟨none, depth⟩ p (some c) g g')
    (h : ∀ b, token.IsEdge b →
      Respaced textRule ⟨none, token.depthAfter depth⟩ (some b) t t') :
    Respaced textRule ⟨none, depth⟩ p (g ++ (token.source ++ t)) (g' ++ (token.source ++ t')) := by
  have hmark : ∀ c, isBlank c = false → token.IsEdge c → token.source = [c] →
      Nesting.after ⟨none, depth⟩ c = ⟨none, token.depthAfter depth⟩ →
      Respaced textRule ⟨none, depth⟩ p (g ++ (token.source ++ t)) (g' ++ (token.source ++ t')) := by
    intro c hblank hc hsource hafter
    rw [hsource]
    exact .next_of_after rfl hg hg' hblank (hgap c hc) hafter (h c hc)
  cases hwhole with
  | @word w hne hrun =>
      have hbehind : RespacedBehindPlain depth t t' := h
      cases w with
      | nil => exact absurd rfl hne
      | cons c w =>
          obtain ⟨hc, hw⟩ := List.forall_mem_cons.1 hrun.isBreak_eq_false
          obtain ⟨hblank, hdelimiter, -⟩ := Token.isBreak_eq_false_iff.1 hc
          exact .next_of_after rfl hg hg' hblank (hgap c hdelimiter)
            (after_of_not_isBreak hc depth) (hbehind.word_append hw c hdelimiter)
  | @quoted q run hquote hrun =>
      have hbehind : RespacedBehindPlain depth t t' := h
      have hdelimiter := Token.not_isDelimiter_of_isQuote hquote
      exact .next_of_after rfl hg hg' (Token.not_isBlank_of_isQuote hquote) (hgap q hdelimiter)
        (Nesting.after_open_run hquote depth) (hbehind.closedRun_append hrun hquote (some q))
  | lineComment => exact absurd hcomment Bool.noConfusion
  | blockComment => exact absurd hcomment Bool.noConfusion
  | openParen => exact hmark '(' rfl rfl rfl rfl
  | closeParen => exact hmark ')' rfl rfl rfl rfl
  | comma => exact hmark ',' rfl rfl rfl rfl
  | semicolon => exact hmark ';' rfl rfl rfl rfl

/-- What stands before a gap of a layout: the token, if there is one, and the character it ends
in. -/
def Token.EndsIn : Option Token → Option Char → Prop
  | none, p => p = none
  | some token, p => token.isComment = false ∧ ∃ b, p = some b ∧ token.IsEdge b

theorem Layout.textRule_gapBehind {previous : Option Token} {p : Option Char} {g : Text}
    (hp : Token.EndsIn previous p) (hcomment : token.isComment = false) (indent : Nat)
    (hc : token.IsEdge c) : textRule ⟨none, depth⟩ p (some c) g
      (gapBehind indent depth previous ⟨token, !g.isEmpty⟩) := by
  intro b hb c' hc'
  obtain rfl := Option.some.inj hc'
  cases previous with
  | none =>
      obtain rfl : p = none := hp
      exact nomatch hb
  | some previous =>
      obtain ⟨hprevious, b', rfl, hedge⟩ := hp
      obtain rfl := Option.some.inj hb
      exact gap_eq_lineGap_or_mayBreak hedge hc hprevious hcomment indent depth _

/-- Laying out the tokens of a text respaces it, behind a token and at a depth. -/
theorem Respaced.write (t : Text) (hfree : ∀ token ∈ tokens t, token.isComment = false)
    (indent : Nat) {depth : Depth} {previous : Option Token} {p : Option Char}
    (hp : Token.EndsIn previous p) : Respaced textRule ⟨none, depth⟩ p t
      (Layout.write indent depth previous ((atoms t).map Atom.trimmed)) := by
  refine Text.commentFree_induction (motive := fun t => ∀ depth previous p,
    Token.EndsIn previous p → Respaced textRule ⟨none, depth⟩ p t
      (Layout.write indent depth previous ((atoms t).map Atom.trimmed)))
    ?gap ?token t hfree depth previous p hp
  case gap =>
    intro g hg depth previous p _
    rw [atoms_of_isGap hg]
    exact .gap rfl hg Text.isGap_nil fun _ _ _ hd => nomatch hd
  case token =>
    intro g token rest hg hread hcomment hblank hnext _ ih depth previous p hp
    have hgap := isGap_gapBehind indent depth previous (Atom.trimmed ⟨token, !g.isEmpty⟩)
    rw [atoms_append hg hblank hnext, List.map_cons, write_cons]
    rcases hread with ⟨hwhole, -⟩ | ⟨hcut, rfl⟩
    · rw [Atom.trimmed, hwhole.trimmed_eq] at hgap ⊢
      apply Respaced.token_append hwhole hcomment hg hgap
      · exact fun c hc => textRule_gapBehind hp hcomment indent hc
      · exact fun b hb => ih _ _ _ ⟨hcomment, b, rfl, hb⟩
    · cases hcut with
      | blockComment => exact absurd hcomment Bool.noConfusion
      | @quoted q run hquote hrun =>
          have hblankq := Token.not_isBlank_of_isQuote hquote
          have hdelimiter := Token.not_isDelimiter_of_isQuote hquote
          have hrule : textRule ⟨none, depth⟩ p (some q) g (gapBehind indent depth previous
              ⟨.quoted (q :: run.trimEnd), !g.isEmpty⟩) :=
            textRule_gapBehind hp rfl indent hdelimiter
          have htrim : Atom.trimmed ⟨.quoted (q :: run), !g.isEmpty⟩ =
              ⟨.quoted (q :: run.trimEnd), !g.isEmpty⟩ := by
            rw [← Text.trimEnd_cons_of_not_isBlank hblankq run]
            rfl
          have hnone : ∀ n : Nat, Layout.write indent n (some (.quoted (q :: run.trimEnd)))
              ((atoms []).map Atom.trimmed) = [] := by
            intro n
            rw [atoms_of_isGap Text.isGap_nil]
            rfl
          rw [htrim] at hgap ⊢
          rw [hnone, List.append_nil, List.append_nil]
          exact .next_of_after rfl hg hgap hblankq hrule (Nesting.after_open_run hquote depth)
            (respaced_openRun hrun hquote (some q))

/-- A layout of a text without comments respaces it. -/
theorem Respaced.format (t : Text) (hfree : ∀ token ∈ tokens t, token.isComment = false)
    (indent : Nat) : Respaced textRule .top none t (t.format indent) := by
  rw [Text.format_eq_write]
  exact Respaced.write t hfree indent rfl

end DdlDiagram
