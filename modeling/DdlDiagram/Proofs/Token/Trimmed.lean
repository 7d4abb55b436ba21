import DdlDiagram.Proofs.Token.Legible

/-!
# Tokens without the blanks at their end

Of all tokens only those that are cut off can end in blanks: those blanks are the blanks at the
end of the text. Trimming a token takes them away and leaves every other token alone. A gap put
behind a text changes none of its atoms but for such blanks.
-/

namespace DdlDiagram

variable {s t rest g : Text} {token following : Token} {atom : Atom} {others : List Atom}

namespace Token

def trimmed : Token → Token
  | word t => word t.trimEnd
  | quoted t => quoted t.trimEnd
  | lineComment t => lineComment t.trimEnd
  | blockComment t => blockComment t.trimEnd
  | token => token

theorem source_trimmed (token : Token) : token.trimmed.source = token.source.trimEnd := by
  cases token <;> rfl

@[simp] theorem trimmed_trimmed (token : Token) : token.trimmed.trimmed = token.trimmed := by
  cases token <;> simp [trimmed]

theorem trimmed_eq_of_trimEnd_source_eq (h : token.source.trimEnd = token.source) :
    token.trimmed = token := by
  cases token <;> simp_all [trimmed, source]

theorem ClosedRun.getLast? {quote : Char} (h : ClosedRun quote t) : t.getLast? = some quote := by
  induction h with
  | close => rfl
  | escape _ ih => simp [List.getLast?_cons, ih]
  | char _ _ ih => simp [List.getLast?_cons, ih]

theorem ClosedComment.getLast? (h : ClosedComment t) : t.getLast? = some '/' := by
  induction h with
  | close => rfl
  | char _ _ ih => simp [List.getLast?_cons, ih]

/-- A whole token ends in a character that is not blank. -/
theorem Whole.trimEnd_source (h : Whole token) : token.source.trimEnd = token.source := by
  rw [Text.trimEnd_eq_self_iff]
  intro c hc
  cases h with
  | word _ hrun =>
      have hbreak := hrun.isBreak_eq_false c (List.mem_of_getLast? hc)
      exact not_isBlank_of_not_isBreak hbreak
  | quoted hquote hrun =>
      rw [source, List.getLast?_cons, hrun.getLast?] at hc
      obtain rfl := Option.some.inj hc
      exact not_isBlank_of_isQuote hquote
  | lineComment _ htrim => exact Text.trimEnd_eq_self_iff.1 htrim c hc
  | blockComment hrun =>
      rw [source, List.getLast?_cons, List.getLast?_cons, hrun.getLast?] at hc
      obtain rfl := Option.some.inj hc
      rfl
  | openParen => obtain rfl := Option.some.inj hc; rfl
  | closeParen => obtain rfl := Option.some.inj hc; rfl
  | comma => obtain rfl := Option.some.inj hc; rfl
  | semicolon => obtain rfl := Option.some.inj hc; rfl

theorem Whole.trimmed_eq (h : Whole token) : token.trimmed = token :=
  trimmed_eq_of_trimEnd_source_eq h.trimEnd_source

theorem CutOff.trimmed (h : CutOff token) : CutOff token.trimmed := by
  cases h with
  | @quoted quote run hquote hrun =>
      obtain ⟨g, hg, hsplit⟩ := Text.exists_trimEnd_append_gap run
      rw [Token.trimmed, Text.trimEnd_cons_of_not_isBlank (not_isBlank_of_isQuote hquote)]
      rw [hsplit] at hrun
      exact .quoted hquote (hrun.of_append_of_not_mem (quote_not_mem_gap hquote hg))
  | @blockComment run hrun =>
      rw [Token.trimmed, Text.trimEnd_cons_of_not_isBlank rfl,
        Text.trimEnd_cons_of_not_isBlank rfl]
      refine .blockComment fun hmark => hrun (hmark.trans ?_)
      exact (List.rdropWhile_prefix isBlank run).isInfix

theorem IsRead.trimmed (h : IsRead token) : IsRead token.trimmed := by
  rcases h with hwhole | hcut
  · exact .inl (hwhole.trimmed_eq.symm ▸ hwhole)
  · exact .inr hcut.trimmed

/-- The first character of a token stays under trimming. -/
theorem IsRead.head?_source_trimmed (h : IsRead token) :
    token.trimmed.source.head? = token.source.head? := by
  obtain ⟨c, t, hsource, hc⟩ := h.exists_source_eq_cons
  rw [source_trimmed, hsource, Text.trimEnd_cons_of_not_isBlank hc]
  rfl

theorem MayTouch.trimmed (h : MayTouch token following) (hread : IsRead following) :
    MayTouch token following.trimmed := by
  cases token <;> cases following <;> try exact h
  have hhead := hread.head?_source_trimmed
  change _ ≠ _
  intro heq
  exact h (hhead.symm.trans heq)

end Token

def Atom.trimmed (atom : Atom) : Atom := { atom with token := atom.token.trimmed }

theorem Legible.map_trimmed {atoms : List Atom} (h : Legible atoms) :
    Legible (atoms.map Atom.trimmed) := by
  induction h with
  | nil => exact .nil
  | last hread => exact .last hread.trimmed
  | @cons atom following rest hwhole htouch hrest ih =>
      have hkeep : atom.trimmed.token = atom.token := hwhole.trimmed_eq
      refine .cons (hkeep.symm ▸ hwhole : Token.Whole atom.trimmed.token) ?_ ih
      intro hspaced
      rw [hkeep]
      exact (htouch hspaced).trimmed hrest.isRead_head

namespace Token

variable {quote c d : Char}

theorem head?_append_gap (hg : Text.IsGap g) (hd : isBlank d = false) :
    ((t ++ g).head? == some d) = (t.head? == some d) := by
  cases t with
  | cons _ _ => rfl
  | nil =>
      cases g with
      | nil => rfl
      | cons e g =>
          have he : e ≠ d := by
            rintro rfl
            rw [(Text.isGap_cons.1 hg).1] at hd
            contradiction
          simpa using he

theorem startsLineComment_append_gap (hg : Text.IsGap g) :
    startsLineComment (c :: (t ++ g)) = startsLineComment (c :: t) := by
  rw [startsLineComment_cons, startsLineComment_cons, head?_append_gap hg rfl]

theorem startsBlockComment_append_gap (hg : Text.IsGap g) :
    startsBlockComment (c :: (t ++ g)) = startsBlockComment (c :: t) := by
  rw [startsBlockComment_cons, startsBlockComment_cons, head?_append_gap hg rfl]

theorem endsWord_append_gap (hg : Text.IsGap g) :
    endsWord (c :: (t ++ g)) = endsWord (c :: t) := by
  rw [endsWord_cons, endsWord_cons, head?_append_gap hg rfl, head?_append_gap hg rfl]

theorem wordRun_append_gap (hg : Text.IsGap g) (t : Text) :
    wordRun (t ++ g) = ((wordRun t).1, (wordRun t).2 ++ g) := by
  induction t with
  | nil =>
      cases g with
      | nil => rfl
      | cons c g => simp [wordRun, endsWord_cons, isBreak, (Text.isGap_cons.1 hg).1]
  | cons c t ih =>
      rw [List.cons_append, wordRun, wordRun, endsWord_append_gap hg, ih]
      split <;> rfl

/-- A gap behind a text lengthens a quoted run only if the run takes the whole text. -/
theorem quotedRun_append_gap (hquote : isQuote quote = true) (hg : Text.IsGap g) (t : Text) :
    quotedRun quote (t ++ g) = ((quotedRun quote t).1, (quotedRun quote t).2 ++ g) ∨
      (quotedRun quote t).2 = [] ∧
        quotedRun quote (t ++ g) = ((quotedRun quote t).1 ++ g, []) := by
  rcases quotedRun_closed_or_open quote t with ⟨hrun, hrest⟩ | ⟨hrun, hrest⟩
  · left
    refine quotedRun_append_of_closed hrun ?_
    rw [← beq_eq_false_iff_ne, head?_append_gap hg (not_isBlank_of_isQuote hquote)]
    simpa using hrest
  · refine .inr ⟨hrest, ?_⟩
    have hsplit := quotedRun_append quote t
    rw [hrest, List.append_nil] at hsplit
    have hread := (hrun.append_of_not_mem (quote_not_mem_gap hquote hg)).quotedRun_eq
    rwa [hsplit] at hread ⊢

/-- A gap behind a text lengthens a block comment only if the comment takes the whole text. -/
theorem commentRun_append_gap (hg : Text.IsGap g) (t : Text) :
    commentRun (t ++ g) = ((commentRun t).1, (commentRun t).2 ++ g) ∨
      (commentRun t).2 = [] ∧ commentRun (t ++ g) = ((commentRun t).1 ++ g, []) := by
  rcases commentRun_closed_or_open t with hrun | ⟨hrun, hrest⟩
  · exact .inl (commentRun_append_of_closed hrun g)
  · refine .inr ⟨hrest, ?_⟩
    have hsplit := commentRun_append t
    rw [hrest, List.append_nil] at hsplit
    have hread := commentRun_of_not_infix (not_infix_append_gap hrun hg)
    rwa [hsplit] at hread ⊢

/-- A gap behind a text lengthens the last line of the text and no other one. -/
theorem lineRun_append_gap (hg : Text.IsGap g) (t : Text) :
    ∃ g', Text.IsGap g' ∧
      (((t ++ g).takeWhile (· != '\n') = t.takeWhile (· != '\n') ∧
          (t ++ g).dropWhile (· != '\n') = t.dropWhile (· != '\n') ++ g) ∨
        (t.dropWhile (· != '\n') = [] ∧
          (t ++ g).takeWhile (· != '\n') = t.takeWhile (· != '\n') ++ g' ∧
          Text.IsGap ((t ++ g).dropWhile (· != '\n')))) := by
  refine ⟨g.takeWhile (· != '\n'), fun c hc => hg c (List.takeWhile_subset _ hc), ?_⟩
  by_cases hrest : t.dropWhile (· != '\n') = []
  · right
    have hinside := List.dropWhile_eq_nil_iff.1 hrest
    rw [List.takeWhile_append_of_pos hinside, List.dropWhile_append_of_pos hinside,
      List.takeWhile_eq_self_iff.2 hinside]
    exact ⟨hrest, rfl, fun c hc => hg c (List.dropWhile_subset _ hc)⟩
  · exact .inl ⟨Text.takeWhile_append_of_dropWhile_ne_nil hrest g,
      Text.dropWhile_append_of_dropWhile_ne_nil hrest g⟩

/-- A gap behind a text lengthens its first token at most by blanks, and then that token takes
all of the text that is not blank. -/
theorem next?_append_gap (hg : Text.IsGap g) (h : next? t = some (token, rest)) :
    ∃ token' rest', next? (t ++ g) = some (token', rest') ∧ token'.trimmed = token.trimmed ∧
      (rest' = rest ++ g ∨ (Text.IsGap rest ∧ Text.IsGap rest')) := by
  cases reads_of_next? h with
  | openParen => exact ⟨_, _, rfl, rfl, .inl rfl⟩
  | closeParen => exact ⟨_, _, rfl, rfl, .inl rfl⟩
  | comma => exact ⟨_, _, rfl, rfl, .inl rfl⟩
  | semicolon => exact ⟨_, _, rfl, rfl, .inl rfl⟩
  | @quoted quote hquote t =>
      refine ⟨_, _, (Reads.quoted hquote (t ++ g)).next?_eq, ?_⟩
      rcases quotedRun_append_gap hquote hg t with hread | ⟨hrest, hread⟩
      · rw [hread]
        exact ⟨rfl, .inl rfl⟩
      · rw [hread, hrest]
        exact ⟨congrArg quoted (hg.trimEnd_append (quote :: (quotedRun quote t).1)),
          .inr ⟨Text.isGap_nil, Text.isGap_nil⟩⟩
  | lineComment t =>
      refine ⟨_, _, (Reads.lineComment (t ++ g)).next?_eq, ?_⟩
      obtain ⟨g', hg', hline | hline⟩ := lineRun_append_gap hg ('-' :: t)
      · rw [List.cons_append] at hline
        rw [hline.1, hline.2]
        exact ⟨rfl, .inl rfl⟩
      · rw [List.cons_append] at hline
        rw [hline.2.1]
        refine ⟨?_, .inr ⟨hline.1 ▸ Text.isGap_nil, hline.2.2⟩⟩
        rw [← List.cons_append, hg'.trimEnd_append]
  | blockComment t =>
      refine ⟨_, _, (Reads.blockComment (t ++ g)).next?_eq, ?_⟩
      rcases commentRun_append_gap hg t with hread | ⟨hrest, hread⟩
      · rw [hread]
        exact ⟨rfl, .inl rfl⟩
      · rw [hread, hrest]
        exact ⟨congrArg blockComment (hg.trimEnd_append ('/' :: '*' :: (commentRun t).1)),
          .inr ⟨Text.isGap_nil, Text.isGap_nil⟩⟩
  | @word c t hdelimiter hquote hline hblock =>
      rw [← startsLineComment_append_gap hg] at hline
      rw [← startsBlockComment_append_gap hg] at hblock
      refine ⟨_, _, (Reads.word hdelimiter hquote hline hblock).next?_eq, ?_⟩
      rw [wordRun_append_gap hg]
      exact ⟨rfl, .inl rfl⟩

end Token

/-- A gap behind a text does not show in its trimmed atoms. -/
theorem map_trimmed_atoms_append_gap (hg : Text.IsGap g) (t : Text) :
    (atoms (t ++ g)).map Atom.trimmed = (atoms t).map Atom.trimmed := by
  induction t using Text.token_induction with
  | gap g' hg' => rw [atoms_of_isGap hg', atoms_of_isGap (Text.isGap_append.2 ⟨hg', hg⟩)]
  | token g' token t rest hg' hblank hnext ih =>
      obtain ⟨token', rest', hnext', htrimmed, hrest⟩ := Token.next?_append_gap hg hnext
      have hblank' := Token.startsBlank_append_of_next? hblank hnext g
      have hfirst : (Atom.mk token' (!g'.isEmpty)).trimmed =
          (Atom.mk token (!g'.isEmpty)).trimmed :=
        congrArg (Atom.mk · (!g'.isEmpty)) htrimmed
      rw [List.append_assoc, atoms_append hg' hblank' hnext', atoms_append hg' hblank hnext,
        List.map_cons, List.map_cons, hfirst]
      rcases hrest with rfl | ⟨hgap, hgap'⟩
      · rw [ih]
      · rw [atoms_of_isGap hgap, atoms_of_isGap hgap']

end DdlDiagram
