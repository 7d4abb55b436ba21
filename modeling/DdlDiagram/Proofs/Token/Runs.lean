import DdlDiagram.Proofs.Text.Trim
import DdlDiagram.Token.Lexer

/-!
# Runs that end by themselves

A quoted run or a block comment either ends at its closing mark or is cut off by the end of the
text. A run of the first kind is read the same whatever stands behind it, up to one exception:
a quote behind a closed quoted run would be taken for the second half of a doubled one. A run of
the second kind takes in all that is put behind it. Words end where the text after them says so,
and so are read the same in front of any text that ends a word. Which run a text starts with is
told by its first two characters.
-/

namespace DdlDiagram
namespace Token

/-- The text behind an opening quote, up to and with the quote that closes the run. -/
inductive ClosedRun (quote : Char) : Text → Prop where
  | close : ClosedRun quote [quote]
  | escape {t : Text} : ClosedRun quote t → ClosedRun quote (quote :: quote :: t)
  | char {c : Char} {t : Text} : c ≠ quote → ClosedRun quote t → ClosedRun quote (c :: t)

/-- The text behind an opening quote, if no quote closes the run. -/
inductive OpenRun (quote : Char) : Text → Prop where
  | nil : OpenRun quote []
  | escape {t : Text} : OpenRun quote t → OpenRun quote (quote :: quote :: t)
  | char {c : Char} {t : Text} : c ≠ quote → OpenRun quote t → OpenRun quote (c :: t)

variable {quote c : Char} {s t rest g : Text} {token : Token}

theorem quotedRun_cons_of_ne (hc : c ≠ quote) (t : Text) :
    quotedRun quote (c :: t) = (quotedRun quote t).map (c :: ·) id := by
  cases t with
  | nil => simp [quotedRun, hc]
  | cons d rest => rw [quotedRun, if_neg hc]

/-- Reading a run either closes it and stops short of a further quote, or takes the whole text. -/
theorem quotedRun_closed_or_open (quote : Char) (t : Text) :
    (ClosedRun quote (quotedRun quote t).1 ∧ (quotedRun quote t).2.head? ≠ some quote) ∨
      (OpenRun quote (quotedRun quote t).1 ∧ (quotedRun quote t).2 = []) := by
  fun_induction quotedRun quote t with
  | case1 => exact .inr ⟨.nil, rfl⟩
  | case2 => exact .inl ⟨.close, by simp⟩
  | case3 others ih =>
      rcases ih with ⟨hrun, hrest⟩ | ⟨hrun, hrest⟩
      · exact .inl ⟨.escape hrun, hrest⟩
      · exact .inr ⟨.escape hrun, hrest⟩
  | case4 d others hd => exact .inl ⟨.close, by simpa using hd⟩
  | case5 c rest hc ih =>
      rcases ih with ⟨hrun, hrest⟩ | ⟨hrun, hrest⟩
      · exact .inl ⟨.char hc hrun, hrest⟩
      · exact .inr ⟨.char hc hrun, hrest⟩

theorem ClosedRun.quotedRun_append (h : ClosedRun quote s) (hrest : rest.head? ≠ some quote) :
    quotedRun quote (s ++ rest) = (s, rest) := by
  induction h with
  | close =>
      cases rest with
      | nil => simp [quotedRun]
      | cons d others =>
          have hd : d ≠ quote := by simpa using hrest
          simp [quotedRun, hd]
  | escape _ ih => simp [quotedRun, ih]
  | char hc _ ih => simp [quotedRun_cons_of_ne hc, ih]

theorem quotedRun_append_of_closed (hrun : ClosedRun quote (quotedRun quote t).1)
    (hrest : ((quotedRun quote t).2 ++ s).head? ≠ some quote) :
    quotedRun quote (t ++ s) = ((quotedRun quote t).1, (quotedRun quote t).2 ++ s) := by
  have hread := hrun.quotedRun_append hrest
  rwa [← List.append_assoc, quotedRun_append] at hread

theorem OpenRun.quotedRun_eq (h : OpenRun quote s) : quotedRun quote s = (s, []) := by
  induction h with
  | nil => rfl
  | escape _ ih => simp [quotedRun, ih]
  | char hc _ ih => simp [quotedRun_cons_of_ne hc, ih]

theorem OpenRun.append_of_not_mem (h : OpenRun quote s) (ht : quote ∉ t) :
    OpenRun quote (s ++ t) := by
  induction h with
  | nil =>
      induction t with
      | nil => exact .nil
      | cons c rest ih =>
          simp only [List.mem_cons, not_or] at ht
          exact .char (Ne.symm ht.1) (ih ht.2)
  | escape _ ih => exact .escape ih
  | char hc _ ih => exact .char hc ih

theorem OpenRun.of_append_of_not_mem (h : OpenRun quote (s ++ t)) (ht : quote ∉ t) :
    OpenRun quote s := by
  generalize hu : s ++ t = u at h
  induction h generalizing s with
  | nil =>
      obtain ⟨rfl, -⟩ := List.append_eq_nil_iff.1 hu
      exact .nil
  | escape _ ih =>
      -- A doubled quote cannot be cut in half: its second half would stand in `t`.
      cases s with
      | nil => simp_all
      | cons c s =>
          cases s with
          | nil => simp_all
          | cons d s =>
              simp only [List.cons_append, List.cons.injEq] at hu
              obtain ⟨rfl, rfl, hu⟩ := hu
              exact .escape (ih hu)
  | char hc _ ih =>
      cases s with
      | nil => exact .nil
      | cons d s =>
          simp only [List.cons_append, List.cons.injEq] at hu
          obtain ⟨rfl, hu⟩ := hu
          exact .char hc (ih hu)

theorem not_isBlank_of_isQuote (h : isQuote c = true) : isBlank c = false := by
  simp only [isQuote, Bool.or_eq_true, beq_iff_eq] at h
  rcases h with (rfl | rfl) | rfl <;> rfl

theorem not_isDelimiter_of_isQuote (h : isQuote c = true) : isDelimiter c = false := by
  simp only [isQuote, Bool.or_eq_true, beq_iff_eq] at h
  rcases h with (rfl | rfl) | rfl <;> rfl

theorem not_isQuote_of_isBlank (h : isBlank c = true) : isQuote c = false := by
  by_contra hquote
  rw [not_isBlank_of_isQuote (Bool.not_eq_false _ ▸ hquote)] at h
  exact absurd h Bool.false_ne_true

theorem quote_not_mem_gap (hquote : isQuote quote = true) (hg : Text.IsGap g) : quote ∉ g := by
  intro hmem
  have := hg quote hmem
  simp [not_isBlank_of_isQuote hquote] at this

def commentEnd : Text := ['*', '/']

theorem commentRun_cons (c : Char) (t : Text) :
    commentRun (c :: t) =
      if commentEnd <+: c :: t then (c :: t.take 1, t.drop 1)
      else (commentRun t).map (c :: ·) id := by
  rw [commentRun]
  simp only [List.isPrefixOf_iff_prefix]
  rfl

/-- The text behind the opening mark of a block comment, up to and with its closing mark. -/
inductive ClosedComment : Text → Prop where
  | close : ClosedComment commentEnd
  | char {c : Char} {t : Text} : ¬ commentEnd <+: c :: t → ClosedComment t →
      ClosedComment (c :: t)

theorem ClosedComment.two_le_length (h : ClosedComment s) : 2 ≤ s.length := by
  induction h with
  | close => exact Nat.le_refl _
  | char _ _ ih => exact Nat.le_succ_of_le ih

/-- Reading a comment either closes it or takes the whole text, which then has no closing mark. -/
theorem commentRun_closed_or_open (t : Text) :
    ClosedComment (commentRun t).1 ∨
      (¬ commentEnd <:+: (commentRun t).1 ∧ (commentRun t).2 = []) := by
  induction t with
  | nil => exact .inr ⟨by decide, rfl⟩
  | cons c rest ih =>
      rw [commentRun_cons]
      split
      · rename_i hmark
        obtain ⟨u, hu⟩ := hmark
        obtain ⟨rfl, rfl⟩ : c = '*' ∧ rest = '/' :: u := by
          simpa [commentEnd, eq_comm] using hu
        exact .inl .close
      · rename_i hmark
        have hsplit := commentRun_append rest
        have hc : ¬ commentEnd <+: c :: (commentRun rest).1 := by
          intro hpre
          refine hmark (hpre.trans ?_)
          rw [List.prefix_cons_inj]
          exact ⟨_, hsplit⟩
        rcases ih with hrun | ⟨hrun, hrest⟩
        · exact .inl (.char hc hrun)
        · refine .inr ⟨?_, hrest⟩
          rw [Prod.map_fst, List.infix_cons_iff]
          exact not_or.2 ⟨hc, hrun⟩

theorem ClosedComment.commentRun_append (h : ClosedComment s) (rest : Text) :
    commentRun (s ++ rest) = (s, rest) := by
  induction h with
  | close =>
      change commentRun ('*' :: '/' :: rest) = _
      rw [commentRun_cons, if_pos ⟨rest, rfl⟩]
      rfl
  | @char c t hc ht ih =>
      have hlong : commentEnd.length ≤ (c :: t).length := Nat.le_succ_of_le ht.two_le_length
      have hmark : ¬ commentEnd <+: c :: (t ++ rest) := by
        intro hpre
        exact hc (List.prefix_of_prefix_length_le hpre (List.prefix_append (c :: t) rest) hlong)
      rw [List.cons_append, commentRun_cons, if_neg hmark, ih]
      rfl

theorem commentRun_append_of_closed (hrun : ClosedComment (commentRun t).1) (s : Text) :
    commentRun (t ++ s) = ((commentRun t).1, (commentRun t).2 ++ s) := by
  have hread := hrun.commentRun_append ((commentRun t).2 ++ s)
  rwa [← List.append_assoc, commentRun_append] at hread

theorem commentRun_of_not_infix (h : ¬ commentEnd <:+: s) : commentRun s = (s, []) := by
  induction s with
  | nil => rfl
  | cons c rest ih =>
      rw [List.infix_cons_iff, not_or] at h
      rw [commentRun_cons, if_neg h.1, ih h.2]
      rfl

/-- A gap holds no part of a closing mark, so it cannot complete one. -/
theorem not_infix_append_gap (h : ¬ commentEnd <:+: s) (hg : Text.IsGap g) :
    ¬ commentEnd <:+: s ++ g := by
  induction s with
  | nil =>
      rintro hmark
      exact absurd (hg '/' (hmark.subset (by decide))) (by decide)
  | cons c rest ih =>
      rw [List.infix_cons_iff, not_or] at h
      rw [List.cons_append, List.infix_cons_iff, not_or]
      refine ⟨?_, ih h.2⟩
      rintro ⟨u, hu⟩
      cases rest with
      | nil =>
          have hslash : '/' :: u = g := congrArg List.tail hu
          exact absurd (hg '/' (hslash ▸ List.mem_cons_self)) (by decide)
      | cons d rest =>
          simp only [commentEnd, List.cons_append, List.nil_append, List.cons.injEq] at hu
          obtain ⟨rfl, rfl, -⟩ := hu
          exact h.1 ⟨rest, rfl⟩

/-- Whether a character ends a word wherever it stands. -/
def isBreak (c : Char) : Bool := isBlank c || isDelimiter c || isQuote c

theorem isBreak_eq_false_iff :
    isBreak c = false ↔ isBlank c = false ∧ isDelimiter c = false ∧ isQuote c = false := by
  rw [isBreak, Bool.or_eq_false_iff, Bool.or_eq_false_iff, and_assoc]

theorem startsLineComment_cons (c : Char) (t : Text) :
    startsLineComment (c :: t) = (c == '-' && t.head? == some '-') := by
  cases t <;> simp [startsLineComment, List.isPrefixOf, Bool.beq_comm]

theorem startsBlockComment_cons (c : Char) (t : Text) :
    startsBlockComment (c :: t) = (c == '/' && t.head? == some '*') := by
  cases t <;> simp [startsBlockComment, List.isPrefixOf, Bool.beq_comm]

/-- Whether a word ends at a character depends on it and the next one. -/
theorem endsWord_cons (c : Char) (t : Text) :
    endsWord (c :: t) = (isBreak c || (c == '-' && t.head? == some '-') ||
      (c == '/' && t.head? == some '*')) := by
  rw [endsWord, startsLineComment_cons, startsBlockComment_cons, isBreak]

/-- A text at none of whose places a word ends. -/
def IsWordRun : Text → Prop
  | [] => True
  | c :: rest => endsWord (c :: rest) = false ∧ IsWordRun rest

/-- The text behind a character has a say only by its first character. -/
theorem endsWord_cons_of_head?_eq (c : Char) (h : s.head? = t.head?) :
    endsWord (c :: s) = endsWord (c :: t) := by
  rw [endsWord_cons, endsWord_cons, h]

/-- Without the text behind it, a character ends a word at most as before. -/
theorem endsWord_singleton_of_endsWord_cons (h : endsWord (c :: t) = false) :
    endsWord [c] = false := by
  rw [endsWord_cons, Bool.or_eq_false_iff, Bool.or_eq_false_iff] at h
  rw [endsWord_cons, h.1.1]
  simp

/-- What a word takes of the text behind a character decides about that character as the whole
text does. -/
theorem endsWord_cons_wordRun (h : endsWord (c :: t) = false) :
    endsWord (c :: (wordRun t).1) = false := by
  have happend := wordRun_append t
  cases hrun : (wordRun t).1 with
  | nil => exact endsWord_singleton_of_endsWord_cons h
  | cons d others =>
      rw [← h]
      refine endsWord_cons_of_head?_eq c ?_
      rw [← happend, hrun]
      rfl

theorem wordRun_spec (t : Text) : IsWordRun (wordRun t).1 ∧ endsWord (wordRun t).2 = true := by
  induction t with
  | nil => exact ⟨trivial, rfl⟩
  | cons c rest ih =>
      rw [wordRun]
      split
      · exact ⟨trivial, by assumption⟩
      · rename_i hc
        exact ⟨⟨endsWord_cons_wordRun (Bool.eq_false_iff.2 hc), ih.1⟩, ih.2⟩

/-- The end of a word and a text that ends it do not make a comment mark, unless that text is a
line comment and the word ends in a dash. -/
theorem endsWord_cons_append (hc : endsWord (c :: s) = false) (hrest : endsWord rest = true)
    (hdash : startsLineComment rest = false) : endsWord (c :: (s ++ rest)) = false := by
  cases s with
  | cons d others =>
      rw [← hc]
      exact endsWord_cons_of_head?_eq c rfl
  | nil =>
      cases rest with
      | nil => exact hc
      | cons d others =>
          rw [endsWord_cons, Bool.or_eq_true, Bool.or_eq_true] at hrest
          rw [startsLineComment_cons] at hdash
          rw [endsWord_cons] at hc
          rw [List.nil_append, endsWord_cons]
          have hdash' : d ≠ '-' := by
            rintro rfl
            simp_all [show isBreak '-' = false from rfl]
          have hstar : d ≠ '*' := by
            rintro rfl
            simp_all [show isBreak '*' = false from rfl]
          simp_all

theorem IsWordRun.wordRun_append (h : IsWordRun s) (hrest : endsWord rest = true)
    (hdash : startsLineComment rest = false) : wordRun (s ++ rest) = (s, rest) := by
  induction s with
  | nil =>
      cases rest with
      | nil => rfl
      | cons d others => simp [wordRun, hrest]
  | cons c s ih =>
      rw [List.cons_append, wordRun, endsWord_cons_append h.1 hrest hdash, ih h.2]
      rfl

/-- How a token is read, by what the text starts with: the text, the token and the rest. -/
inductive Reads : Text → Token → Text → Prop where
  | openParen (t : Text) : Reads ('(' :: t) openParen t
  | closeParen (t : Text) : Reads (')' :: t) closeParen t
  | comma (t : Text) : Reads (',' :: t) comma t
  | semicolon (t : Text) : Reads (';' :: t) semicolon t
  | quoted {quote : Char} (hquote : isQuote quote = true) (t : Text) :
      Reads (quote :: t) (quoted (quote :: (quotedRun quote t).1)) (quotedRun quote t).2
  | lineComment (t : Text) :
      Reads ('-' :: '-' :: t)
        (lineComment (Text.trimEnd ('-' :: ('-' :: t).takeWhile (· != '\n'))))
        (('-' :: t).dropWhile (· != '\n'))
  | blockComment (t : Text) :
      Reads ('/' :: '*' :: t) (blockComment ('/' :: '*' :: (commentRun t).1)) (commentRun t).2
  | word {c : Char} {t : Text} (hdelimiter : isDelimiter c = false) (hquote : isQuote c = false)
      (hline : startsLineComment (c :: t) = false)
      (hblock : startsBlockComment (c :: t) = false) :
      Reads (c :: t) (word (c :: (wordRun t).1)) (wordRun t).2

theorem eq_cons_of_startsLineComment (h : startsLineComment t = true) :
    ∃ u, t = '-' :: '-' :: u := by
  obtain ⟨u, hu⟩ := List.isPrefixOf_iff_prefix.1 h
  exact ⟨u, hu.symm⟩

theorem eq_cons_of_startsBlockComment (h : startsBlockComment t = true) :
    ∃ u, t = '/' :: '*' :: u := by
  obtain ⟨u, hu⟩ := List.isPrefixOf_iff_prefix.1 h
  exact ⟨u, hu.symm⟩

theorem Reads.next?_eq (h : Reads t token rest) : next? t = some (token, rest) := by
  cases h with
  | openParen => rfl
  | closeParen => rfl
  | comma => rfl
  | semicolon => rfl
  | quoted hquote =>
      have hdelimiter := not_isDelimiter_of_isQuote hquote
      simp only [isDelimiter, Bool.or_eq_false_iff, beq_eq_false_iff_ne] at hdelimiter
      simp [next?, hquote, hdelimiter]
  | lineComment => rfl
  | blockComment => rfl
  | word hdelimiter hquote hline hblock =>
      simp only [isDelimiter, Bool.or_eq_false_iff, beq_eq_false_iff_ne] at hdelimiter
      simp [next?, hquote, hline, hblock, hdelimiter]

/-- Every character starts a token. -/
theorem exists_reads (c : Char) (t : Text) : ∃ token rest, Reads (c :: t) token rest := by
  by_cases hdelimiter : isDelimiter c = true
  · simp only [isDelimiter, Bool.or_eq_true, beq_iff_eq] at hdelimiter
    obtain ((rfl | rfl) | rfl) | rfl := hdelimiter
    · exact ⟨_, _, .openParen t⟩
    · exact ⟨_, _, .closeParen t⟩
    · exact ⟨_, _, .comma t⟩
    · exact ⟨_, _, .semicolon t⟩
  by_cases hquote : isQuote c = true
  · exact ⟨_, _, .quoted hquote t⟩
  by_cases hline : startsLineComment (c :: t) = true
  · obtain ⟨u, hu⟩ := eq_cons_of_startsLineComment hline
    exact hu ▸ ⟨_, _, .lineComment u⟩
  by_cases hblock : startsBlockComment (c :: t) = true
  · obtain ⟨u, hu⟩ := eq_cons_of_startsBlockComment hblock
    exact hu ▸ ⟨_, _, .blockComment u⟩
  simp only [Bool.not_eq_true] at hdelimiter hquote hline hblock
  exact ⟨_, _, .word hdelimiter hquote hline hblock⟩

theorem reads_of_next? (h : next? t = some (token, rest)) : Reads t token rest := by
  cases t with
  | nil => cases h
  | cons c t =>
      obtain ⟨token', rest', hreads⟩ := exists_reads c t
      have hsame := h.symm.trans hreads.next?_eq
      simp only [Option.some.injEq, Prod.mk.injEq] at hsame
      obtain ⟨rfl, rfl⟩ := hsame
      exact hreads

theorem next?_ne_none (c : Char) (t : Text) : next? (c :: t) ≠ none := by
  obtain ⟨token, rest, hreads⟩ := exists_reads c t
  rw [hreads.next?_eq]
  exact Option.some_ne_none _

end Token
end DdlDiagram
