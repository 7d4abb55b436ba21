import DdlDiagram.Proofs.Token.Legible

/-!
# Tokens of two texts, one after the other

A token that ends before the end of a text is the same in front of further text. So a text whose
last token is a semicolon keeps its atoms whatever is put behind it, and what is put behind it has
the atoms that it has by itself, but for the gap in front of the first of them.
-/

namespace DdlDiagram

variable {t u rest g : Text} {token : Token} {quote : Char}

namespace Token

theorem quotedRun_append_of_ne_nil (h : (quotedRun quote t).2 ≠ []) (u : Text) :
    quotedRun quote (t ++ u) = ((quotedRun quote t).1, (quotedRun quote t).2 ++ u) := by
  rcases quotedRun_closed_or_open quote t with ⟨hrun, hhead⟩ | ⟨-, hnil⟩
  · rw [← List.head?_append_of_ne_nil _ h] at hhead
    exact quotedRun_append_of_closed hrun hhead
  · exact absurd hnil h

theorem commentRun_append_of_ne_nil (h : (commentRun t).2 ≠ []) (u : Text) :
    commentRun (t ++ u) = ((commentRun t).1, (commentRun t).2 ++ u) := by
  rcases commentRun_closed_or_open t with hrun | ⟨-, hnil⟩
  · exact commentRun_append_of_closed hrun u
  · exact absurd hnil h

theorem wordRun_append_of_ne_nil (h : (wordRun t).2 ≠ []) (u : Text) :
    wordRun (t ++ u) = ((wordRun t).1, (wordRun t).2 ++ u) := by
  induction t with
  | nil => exact absurd rfl h
  | cons c t ih =>
      cases t with
      | nil =>
          -- A single character that is left over breaks words wherever it stands.
          have hend : endsWord [c] = true := by
            by_contra hend
            simp [wordRun, hend] at h
          have hbreak : isBreak c = true := by simpa [endsWord_cons] using hend
          have hmore : endsWord (c :: u) = true := by simp [endsWord_cons, hbreak]
          simp [wordRun, hend, hmore]
      | cons d t =>
          have hsame : endsWord (c :: (d :: t ++ u)) = endsWord (c :: d :: t) :=
            endsWord_cons_of_head?_eq c rfl
          rw [wordRun] at h ⊢
          rw [List.cons_append, wordRun, hsame]
          split
          · rfl
          · rename_i hend
            rw [if_neg hend] at h
            rw [ih h]
            rfl

/-- A token with text behind it is the same with more text behind it. -/
theorem next?_append_of_ne_nil (h : next? t = some (token, rest)) (hne : rest ≠ []) (u : Text) :
    next? (t ++ u) = some (token, rest ++ u) := by
  cases reads_of_next? h with
  | openParen => rfl
  | closeParen => rfl
  | comma => rfl
  | semicolon => rfl
  | quoted hquote t =>
      have hread := (Reads.quoted hquote (t ++ u)).next?_eq
      rwa [quotedRun_append_of_ne_nil hne] at hread
  | lineComment t =>
      have hread := (Reads.lineComment (t ++ u)).next?_eq
      rwa [← List.cons_append, Text.takeWhile_append_of_dropWhile_ne_nil hne,
        Text.dropWhile_append_of_dropWhile_ne_nil hne] at hread
  | blockComment t =>
      have hread := (Reads.blockComment (t ++ u)).next?_eq
      rwa [commentRun_append_of_ne_nil hne] at hread
  | @word c t hdelimiter hquote hline hblock =>
      have ht : t ≠ [] := by
        rintro rfl
        exact hne rfl
      have hhead : (t ++ u).head? = t.head? := List.head?_append_of_ne_nil t ht
      rw [startsLineComment_cons, ← hhead, ← startsLineComment_cons] at hline
      rw [startsBlockComment_cons, ← hhead, ← startsBlockComment_cons] at hblock
      have hread := (Reads.word hdelimiter hquote hline hblock).next?_eq
      rwa [wordRun_append_of_ne_nil hne] at hread

end Token

theorem tokens_eq_nil_iff : tokens t = [] ↔ Text.IsGap t := by
  refine ⟨fun h => ?_, tokens_of_isGap⟩
  cases t using Text.token_induction with
  | gap _ hg => exact hg
  | token g token t rest hg hblank hnext =>
      rw [tokens_append hg hblank hnext] at h
      exact nomatch h

/-- A text that ends in a semicolon keeps its atoms in front of further text, and only the gap at
its end goes to the further text. -/
theorem exists_atoms_append (h : (tokens t).getLast? = some .semicolon) (u : Text) :
    ∃ g, Text.IsGap g ∧ atoms (t ++ u) = atoms t ++ atoms (g ++ u) := by
  induction t using Text.token_induction with
  | gap g hg =>
      rw [tokens_of_isGap hg] at h
      exact nomatch h
  | token g token t rest hg hblank hnext ih =>
      have hblank' := Token.startsBlank_append_of_next? hblank hnext u
      rw [tokens_append hg hblank hnext] at h
      by_cases hlast : tokens rest = []
      · obtain rfl : token = .semicolon := by simpa [hlast] using h
        obtain rfl := Token.source_append_of_next? hnext nofun
        have hnext' : Token.next? (Token.semicolon.source ++ (rest ++ u)) =
            some (.semicolon, rest ++ u) := rfl
        refine ⟨rest, tokens_eq_nil_iff.1 hlast, ?_⟩
        rw [List.append_assoc, atoms_append hg hblank hnext,
          atoms_of_isGap (tokens_eq_nil_iff.1 hlast), List.append_assoc,
          atoms_append hg rfl hnext']
        rfl
      · have hne : rest ≠ [] := by
          rintro rfl
          exact hlast (tokens_of_isGap Text.isGap_nil)
        rw [List.getLast?_cons_of_ne_nil hlast] at h
        obtain ⟨g', hg', hatoms⟩ := ih h
        refine ⟨g', hg', ?_⟩
        rw [List.append_assoc, atoms_append hg hblank hnext,
          atoms_append hg hblank' (Token.next?_append_of_ne_nil hnext hne u), hatoms,
          List.cons_append]

end DdlDiagram
