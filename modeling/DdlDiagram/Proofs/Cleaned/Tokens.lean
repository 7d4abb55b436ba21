import DdlDiagram.Proofs.Cleaned.Lines
import DdlDiagram.Proofs.Cleaned.Steps

/-!
# Tokens of cleaned texts

Cleaning takes comments out as the reader of tokens sees them, as long as every quoted run stays
on its line: the cleaned text has the tokens of the text that are no comments. Of a run over
several lines only the first line is quoted for cleaning, so its later lines can lose what looks
like a comment there, and comments behind it can be kept.
-/

namespace DdlDiagram

open Token

variable {t u rest g : Text} {token : Token} {c : Char}

namespace Cleaned

/-- The text without its comments. -/
def bare (t : Text) : Text := (strip (.code none) t).1

/-- Without marking words, lines make no difference to cleaning. -/
theorem ofLines_nil_eq_strip (place : Place) (t : Text) :
    ofLines [] place t.lines = ⟨(strip place t).1, [], (strip place t).2⟩ := by
  induction t using Text.line_induction generalizing place with
  | last line hline =>
      by_cases hne : line = []
      · rw [hne, strip_nil]
        rfl
      · rw [Text.lines_of_not_mem hline hne, ofLines_cons_none (directive?_nil place line)]
        simp [ofLines]
  | feed line rest hline ih =>
      rw [Text.lines_append_feed hline, ofLines_cons_none (directive?_nil place _),
        strip_append_singleton_feed, ih, strip_append_feed, List.append_assoc]
      rfl

theorem bare_gap_append (hg : Text.IsGap g) (t : Text) : bare (g ++ t) = g ++ bare t := by
  induction g with
  | nil => rfl
  | cons c rest ih =>
      obtain ⟨hc, hrest⟩ := Text.isGap_cons.1 hg
      have hquote := not_isQuote_of_isBlank hc
      have hstrip : strip (.code none) (c :: (rest ++ t)) =
          (strip (.code none) (rest ++ t)).map (c :: ·) id := by
        by_cases hfeed : c = '\n'
        · rw [hfeed]
          exact strip_code_feed none _
        · obtain ⟨hdash, hslash⟩ := ne_of_isBreak (c := c) (by simp [isBreak, hc])
          rw [strip_code_cons_of_keeps hfeed fun _ => marks_of_ne hdash hslash _, Quote.after,
            if_neg (by simp [hquote])]
      rw [bare, List.cons_append, hstrip, Prod.map_fst, ← bare, ih hrest, List.cons_append]

/-- A text that starts with a blank, if with anything. -/
def StartsClear (t : Text) : Prop := ∀ c, t.head? = some c → isBlank c = true

theorem startsClear_cons (hc : isBlank c = true) (t : Text) : StartsClear (c :: t) := by
  intro d hd
  rwa [← Option.some.inj hd]

/-- Behind the mark of a comment nothing is kept in front of a blank. -/
theorem startsClear_strip_lineComment (t : Text) : StartsClear (strip .lineComment t).1 := by
  induction t with
  | nil => exact nofun
  | cons c rest ih =>
      have hstrip : strip .lineComment (c :: rest) =
          if c = '\n' then (strip (.code none) rest).map (c :: ·) id
          else strip .lineComment rest := strip.eq_4 c rest
      rw [hstrip]
      split
      · rename_i hfeed
        exact startsClear_cons (hfeed ▸ rfl) _
      · exact ih

theorem startsClear_strip_blockComment (t : Text) : StartsClear (strip .blockComment t).1 := by
  induction t with
  | nil => exact nofun
  | cons c rest ih =>
      rw [strip_blockComment_cons]
      split
      · exact startsClear_cons rfl _
      · by_cases hfeed : c = '\n'
        · rw [if_pos hfeed]
          exact startsClear_cons (hfeed ▸ rfl) _
        · rwa [if_neg hfeed]

/-- A cleaned text starts as the text does, unless that starts with a comment. -/
theorem bare_cons (c : Char) (rest : Text) : StartsClear (bare (c :: rest)) ∨
    startsLineComment (c :: rest) = false ∧ startsBlockComment (c :: rest) = false ∧
      ∃ u, bare (c :: rest) = c :: u := by
  cases hline : startsLineComment (c :: rest) with
  | true =>
      obtain ⟨u, hu⟩ := List.isPrefixOf_iff_prefix.1 hline
      rw [← hu]
      exact .inl (startsClear_strip_lineComment u)
  | false =>
      cases hblock : startsBlockComment (c :: rest) with
      | true =>
          obtain ⟨u, hu⟩ := List.isPrefixOf_iff_prefix.1 hblock
          rw [← hu]
          exact .inl (startsClear_strip_blockComment u)
      | false =>
          refine .inr ⟨rfl, rfl, ?_⟩
          by_cases hfeed : c = '\n'
          · rw [hfeed, bare, strip_code_feed]
            exact ⟨_, rfl⟩
          · rw [bare, strip_code_cons_of_keeps hfeed fun _ => ⟨hline, hblock⟩]
            exact ⟨_, rfl⟩

theorem endsWord_bare (h : endsWord rest = true) : endsWord (bare rest) = true := by
  cases rest with
  | nil => rfl
  | cons c others =>
      rcases bare_cons c others with hclear | ⟨hline, hblock, u, hu⟩
      · cases hbare : bare (c :: others) with
        | nil => rfl
        | cons d u => simp [endsWord, hclear d (by simp [hbare])]
      · rw [endsWord, hline, hblock, Bool.or_false, Bool.or_false] at h
        rw [hu, endsWord, h, Bool.true_or, Bool.true_or]

/-- Where a token ends in front of a text, it ends in front of the cleaned text. -/
theorem endsAt_bare (hwhole : Whole token) (hcomment : token.isComment = false)
    (h : EndsAt token rest) : EndsAt token (bare rest) := by
  cases hwhole with
  | word => exact endsWord_bare h
  | @quoted quote run hquote =>
      intro c hc heq
      obtain rfl : quote = c := Option.some.inj heq
      cases rest with
      | nil => exact absurd hc (by simp [bare, strip_nil])
      | cons d others =>
          rcases bare_cons d others with hclear | ⟨-, -, u, hu⟩
          · have hblank := hclear quote hc
            rw [not_isBlank_of_isQuote hquote] at hblank
            exact Bool.false_ne_true hblank
          · rw [hu] at hc
            exact h quote hc rfl
  | lineComment => exact absurd hcomment Bool.noConfusion
  | blockComment => exact absurd hcomment Bool.noConfusion
  | _ => trivial

/-- A token that is no comment is read back in front of the cleaned text behind it. -/
theorem next?_source_append_bare (hblank : t.startsBlank = false)
    (hnext : Token.next? t = some (token, rest)) (hcomment : token.isComment = false)
    (hdash : startsLineComment (bare rest) = false) :
    Token.next? (token.source ++ bare rest) = some (token, bare rest) := by
  rcases (next?_spec hblank hnext).2 with ⟨hwhole, hend⟩ | ⟨hcut, rfl⟩
  · exact hwhole.next?_append (endsAt_bare hwhole hcomment hend) hdash
  · rw [show bare [] = [] from rfl, List.append_nil]
    exact hcut.next?_source

/-- Cleaning a text without marking words takes out its comment tokens and nothing else, if no
quoted run holds a line feed. -/
theorem tokens_ofText_nil (hlines : ∀ token ∈ tokens t, token.staysOnLine = true) :
    tokens (ofText [] t).text = (tokens t).filter (!·.isComment) := by
  rw [ofText, ofLines_nil_eq_strip]
  change tokens (bare t) = _
  induction t using Text.token_induction with
  | gap g hg =>
      have hbare := bare_gap_append hg []
      rw [List.append_nil, show bare [] = [] from rfl, List.append_nil] at hbare
      rw [hbare, tokens_of_isGap hg]
      rfl
  | token g token t rest hg hblank hnext ih =>
      have htokens := tokens_append hg hblank hnext
      rw [htokens] at hlines
      rw [htokens]
      obtain ⟨hline, hothers⟩ := List.forall_mem_cons.1 hlines
      have hrest := ih hothers
      obtain ⟨kept, next, hkept, hpasses, hresumes⟩ := exists_passes_of_next? hblank hnext hline
      have hbare : bare t = kept ++ bare rest := by
        rw [bare, hpasses.strip_eq, Prod.map_fst, hresumes.strip_fst, bare]
      rw [bare_gap_append hg, hbare, tokens_gap_append hg]
      -- A comment leaves a gap, any other token itself, in front of the cleaned rest.
      rw [Keeps] at hkept
      cases hcomment : token.isComment with
      | true =>
          rw [hcomment, if_pos rfl] at hkept
          rw [tokens_gap_append hkept, hrest, List.filter_cons_of_neg (by simp [hcomment])]
      | false =>
          rw [hcomment, if_neg Bool.false_ne_true] at hkept
          rw [List.filter_cons_of_pos (by simp [hcomment]), ← hrest, hkept]
          -- The cleaned rest has no comment tokens, so it starts with no mark of one either.
          have hdash : startsLineComment (bare rest) = false := by
            refine startsLineComment_of_forall fun token hmem => ?_
            rw [hrest] at hmem
            simpa using (List.mem_filter.1 hmem).2
          have hsource := (isRead_of_next? hblank hnext).startsBlank_source_append (bare rest)
          rw [← List.nil_append (_ ++ _)]
          exact tokens_append Text.isGap_nil hsource
            (next?_source_append_bare hblank hnext hcomment hdash)

/-- A text with comments of both forms, and their marks in quotes. -/
def commented : Text := "a--b\n/* 'c\n*/'d -- e'\"/*\"-/*/-f".toList

theorem tokens_ofText_nil_commented : (∀ token ∈ tokens commented, token.staysOnLine = true) ∧
    tokens (ofText [] commented).text = (tokens commented).filter (!·.isComment) := by
  have hlines : ∀ token ∈ tokens commented, token.staysOnLine = true := by decide +kernel
  exact ⟨hlines, tokens_ofText_nil hlines⟩

/-- Quoted runs over two lines, with the mark of a comment in the second line and with a comment
behind the run. -/
def quotedOverLines : List Text := ["'a\n-- b'".toList, "'a\nb' -- c".toList]

/-- Where a quoted run holds a line feed, cleaning can take out a part of it, and can leave a
comment in. -/
theorem tokens_ofText_nil_ne : List.Forall (fun t => tokens (ofText [] t).text ≠
    (tokens t).filter (!·.isComment)) quotedOverLines := by
  decide +kernel

end Cleaned
end DdlDiagram
