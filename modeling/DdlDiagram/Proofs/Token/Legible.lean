import DdlDiagram.Proofs.Token.Whole

/-!
# Legible sequences of atoms

A sequence of atoms is legible if it could have been read: its tokens are tokens that reading
gives, only the last one is cut off, and no two tokens without blanks between them could be
taken for one. The atoms of a text are legible. Induction on a text goes token by token.
-/

namespace DdlDiagram

variable {s t rest g : Text} {token following : Token} {atom : Atom} {others : List Atom}

namespace Token

/-- Whether one token may stand directly in front of another. Two words would be one, and so
would two runs between the same quotes; a line comment takes in all that its line still holds. -/
def MayTouch : Token → Token → Prop
  | word _, word _ => False
  | quoted s, quoted t => t.head? ≠ s.head?
  | lineComment _, _ => False
  | _, _ => True

/-- A token as reading gives it. -/
def IsRead (token : Token) : Prop := Whole token ∨ CutOff token

theorem IsWordRun.isBreak_eq_false (h : IsWordRun t) : ∀ c ∈ t, isBreak c = false := by
  induction t with
  | nil => simp
  | cons c rest ih =>
      have hc := h.1
      rw [endsWord_cons, Bool.or_eq_false_iff, Bool.or_eq_false_iff] at hc
      intro d hd
      rcases List.mem_cons.1 hd with rfl | hd
      · exact hc.1.1
      · exact ih h.2 d hd

theorem not_isBlank_of_not_isBreak {c : Char} (h : isBreak c = false) : isBlank c = false := by
  rw [isBreak, Bool.or_eq_false_iff, Bool.or_eq_false_iff] at h
  exact h.1.1

theorem IsRead.isWordRun (h : IsRead (.word t)) : IsWordRun t := by
  rcases h with h | h
  · cases h with
    | word _ hrun => exact hrun
  · exact nomatch h

/-- The source of a token starts with a character that is not blank. -/
theorem IsRead.exists_source_eq_cons (h : IsRead token) :
    ∃ c t, token.source = c :: t ∧ isBlank c = false := by
  rcases h with h | h
  · cases h with
    | @word t hne hrun =>
        cases t with
        | nil => exact absurd rfl hne
        | cons c t =>
            exact ⟨c, t, rfl, not_isBlank_of_not_isBreak (hrun.isBreak_eq_false c (by simp))⟩
    | quoted hquote => exact ⟨_, _, rfl, not_isBlank_of_isQuote hquote⟩
    | lineComment => exact ⟨_, _, rfl, rfl⟩
    | blockComment => exact ⟨_, _, rfl, rfl⟩
    | openParen => exact ⟨_, _, rfl, rfl⟩
    | closeParen => exact ⟨_, _, rfl, rfl⟩
    | comma => exact ⟨_, _, rfl, rfl⟩
    | semicolon => exact ⟨_, _, rfl, rfl⟩
  · cases h with
    | quoted hquote => exact ⟨_, _, rfl, not_isBlank_of_isQuote hquote⟩
    | blockComment => exact ⟨_, _, rfl, rfl⟩

theorem IsRead.startsBlank_source_append (h : IsRead token) (rest : Text) :
    (token.source ++ rest).startsBlank = false := by
  obtain ⟨c, t, hsource, hc⟩ := h.exists_source_eq_cons
  rw [hsource]
  exact hc

theorem IsRead.not_isGap_source (h : IsRead token) : ¬ Text.IsGap token.source := by
  obtain ⟨c, t, hsource, hc⟩ := h.exists_source_eq_cons
  rw [hsource, Text.isGap_cons, hc]
  simp

theorem isRead_of_next? (hblank : t.startsBlank = false) (h : next? t = some (token, rest)) :
    IsRead token :=
  (next?_spec hblank h).2.imp And.left And.left

theorem startsBlank_append_of_next? (hblank : t.startsBlank = false)
    (h : next? t = some (token, rest)) (s : Text) : (t ++ s).startsBlank = false := by
  cases t with
  | nil => simp [next?] at h
  | cons c t => exact hblank

/-- Where a word ends no other word starts. -/
theorem ne_word_of_endsWord (hblank : t.startsBlank = false) (hend : endsWord t = true)
    (h : next? t = some (token, rest)) (w : Text) : token ≠ word w := by
  rintro rfl
  cases reads_of_next? h with
  | @word c t hdelimiter hquote hline hblock =>
      have hblank' : isBlank c = false := hblank
      simp [endsWord, hblank', hdelimiter, hquote, hline, hblock] at hend

/-- A token may touch what it was read in front of. -/
theorem EndsAt.mayTouch {behind : Text} (h : EndsAt token rest)
    (hblank : rest.startsBlank = false) (hnext : next? rest = some (following, behind)) :
    MayTouch token following := by
  cases token with
  | word w =>
      have hne := ne_word_of_endsWord hblank h hnext
      cases following with
      | word u => exact absurd rfl (hne u)
      | _ => trivial
  | quoted s =>
      cases following with
      | quoted u =>
          obtain ⟨c, u', hsource, -⟩ := (isRead_of_next? hblank hnext).exists_source_eq_cons
          obtain ⟨g, -, hrest⟩ := (next?_spec hblank hnext).1
          have hu : u = c :: u' := hsource
          have hhead : rest.head? = some c := by
            rw [hrest, hsource]
            rfl
          rw [MayTouch, hu]
          exact fun heq => h c hhead heq.symm
      | _ => trivial
  | lineComment w =>
      rcases h with rfl | hhead
      · simp [next?] at hnext
      · rw [Text.startsBlank_eq_head?, hhead] at hblank
        contradiction
  | _ => trivial

end Token

theorem atoms_of_isGap (hg : Text.IsGap g) : atoms g = [] := by
  rw [atoms]
  split
  · rfl
  · rename_i hnext
    simp [hg.trimStart, Token.next?] at hnext

/-- The first atom of a text is read behind the gap at its start. -/
theorem atoms_append (hg : Text.IsGap g) (hblank : t.startsBlank = false)
    (hnext : Token.next? t = some (token, rest)) :
    atoms (g ++ t) = ⟨token, !g.isEmpty⟩ :: atoms rest := by
  have htrim : (g ++ t).trimStart = t := by
    rw [hg.trimStart_append, Text.trimStart_of_startsBlank_eq_false hblank]
  rw [atoms]
  split
  · rename_i hnone
    simp [htrim, hnext] at hnone
  · rename_i hsome
    rw [htrim, hnext, Option.some.injEq, Prod.mk.injEq] at hsome
    obtain ⟨rfl, rfl⟩ := hsome
    rw [hg.startsBlank_append hblank]

/-- Every text is a gap, or a gap, the text of a token and a text that is shorter. -/
theorem Text.token_induction {motive : Text → Prop}
    (gap : ∀ g, IsGap g → motive g)
    (token : ∀ g token t rest, IsGap g → t.startsBlank = false →
      Token.next? t = some (token, rest) → motive rest → motive (g ++ t))
    (t : Text) : motive t := by
  induction hn : t.length using Nat.strongRecOn generalizing t with
  | ind n ih =>
      obtain ⟨g, hg, hsplit⟩ := exists_gap_append_trimStart t
      cases hnext : Token.next? t.trimStart with
      | none =>
          cases htrim : t.trimStart with
          | nil =>
              rw [hsplit, htrim, List.append_nil]
              exact gap g hg
          | cons c others =>
              rw [htrim] at hnext
              exact absurd hnext (Token.next?_ne_none c others)
      | some pair =>
          have hlength := Nat.lt_of_lt_of_le (Token.length_lt_of_next? hnext)
            (length_trimStart_le t)
          rw [hsplit]
          exact token g pair.1 _ pair.2 hg (startsBlank_trimStart t) hnext
            (ih pair.2.length (hn ▸ hlength) pair.2 rfl)

/-- A sequence of atoms that could have been read. -/
inductive Legible : List Atom → Prop where
  | nil : Legible []
  | last {atom : Atom} : atom.token.IsRead → Legible [atom]
  | cons {atom following : Atom} {rest : List Atom} : atom.token.Whole →
      (following.spaced = false → atom.token.MayTouch following.token) →
      Legible (following :: rest) → Legible (atom :: following :: rest)

theorem Legible.isRead_head (h : Legible (atom :: others)) : atom.token.IsRead := by
  cases h with
  | last hread => exact hread
  | cons hwhole => exact .inl hwhole

theorem Legible.tail (h : Legible (atom :: others)) : Legible others := by
  cases h with
  | last => exact .nil
  | cons _ _ hrest => exact hrest

theorem legible_atoms (t : Text) : Legible (atoms t) := by
  induction t using Text.token_induction with
  | gap g hg =>
      rw [atoms_of_isGap hg]
      exact .nil
  | token g token t rest hg hblank hnext ih =>
      rw [atoms_append hg hblank hnext]
      obtain ⟨-, ⟨hwhole, hend⟩ | ⟨hcut, rfl⟩⟩ := Token.next?_spec hblank hnext
      · cases rest using Text.token_induction with
        | gap g' hg' =>
            rw [atoms_of_isGap hg']
            exact .last (.inl hwhole)
        | token g' following t' rest' hg' hblank' hnext' _ =>
            rw [atoms_append hg' hblank' hnext'] at ih ⊢
            refine .cons hwhole ?_ ih
            intro hspaced
            obtain rfl : g' = [] := by simpa using hspaced
            exact hend.mayTouch hblank' hnext'
      · rw [atoms_of_isGap Text.isGap_nil]
        exact .last (.inr hcut)

theorem tokens_of_isGap (hg : Text.IsGap g) : tokens g = [] := by
  rw [tokens, atoms_of_isGap hg, List.map_nil]

theorem tokens_append (hg : Text.IsGap g) (hblank : t.startsBlank = false)
    (hnext : Token.next? t = some (token, rest)) : tokens (g ++ t) = token :: tokens rest := by
  rw [tokens, atoms_append hg hblank hnext]
  rfl

/-- Blanks in front of a text make no token. -/
theorem tokens_gap_append (hg : Text.IsGap g) (t : Text) : tokens (g ++ t) = tokens t := by
  induction t using Text.token_induction with
  | gap g' hg' => rw [tokens_of_isGap hg', tokens_of_isGap (Text.isGap_append.2 ⟨hg, hg'⟩)]
  | token g' token t rest hg' hblank hnext _ =>
      rw [← List.append_assoc, tokens_append hg' hblank hnext,
        tokens_append (Text.isGap_append.2 ⟨hg, hg'⟩) hblank hnext]

theorem isRead_of_mem_tokens : ∀ token ∈ tokens t, token.IsRead := by
  induction t using Text.token_induction with
  | gap g hg => simp [tokens_of_isGap hg]
  | token g token t rest hg hblank hnext ih =>
      rw [tokens_append hg hblank hnext]
      exact List.forall_mem_cons.2 ⟨Token.isRead_of_next? hblank hnext, ih⟩

/-- A text without comments is a gap, or a gap, a token and such a text. -/
theorem Text.commentFree_induction {motive : Text → Prop}
    (gap : ∀ g, IsGap g → motive g)
    (token : ∀ g token rest, IsGap g →
      (Token.Whole token ∧ Token.EndsAt token rest ∨ Token.CutOff token ∧ rest = []) →
      token.isComment = false → (token.source ++ rest).startsBlank = false →
      Token.next? (token.source ++ rest) = some (token, rest) →
      (∀ other ∈ tokens rest, other.isComment = false) → motive rest →
      motive (g ++ (token.source ++ rest)))
    (t : Text) (hfree : ∀ token ∈ tokens t, token.isComment = false) : motive t := by
  induction t using Text.token_induction with
  | gap g hg => exact gap g hg
  | token g found t rest hg hblank hnext ih =>
      rw [tokens_append hg hblank hnext] at hfree
      obtain ⟨hcomment, hothers⟩ := List.forall_mem_cons.1 hfree
      have hline : ∀ w, found ≠ .lineComment w := by
        rintro w rfl
        exact absurd hcomment Bool.noConfusion
      obtain rfl := Token.source_append_of_next? hnext hline
      have hread := (Token.next?_spec hblank hnext).2
      exact token g found rest hg hread hcomment hblank hnext hothers (ih hothers)

end DdlDiagram
