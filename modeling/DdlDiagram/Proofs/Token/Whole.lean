import DdlDiagram.Proofs.Token.Runs

/-!
# Whole tokens and tokens that are cut off

The tokens that reading gives are of two kinds. A whole token ends by itself; read in front of
other text it is the same token, as long as that text neither continues it nor makes a comment
of its end. A token that is cut off, a quoted run or block comment without an end, takes in all
that follows, so it can only be the last one of a text.
-/

namespace DdlDiagram
namespace Token

variable {s t rest g : Text} {token following : Token} {c : Char}

/-- The tokens that reading ends before the end of a text. -/
inductive Whole : Token → Prop where
  | word {text : Text} : text ≠ [] → IsWordRun text → Whole (.word text)
  | quoted {quote : Char} {run : Text} : isQuote quote = true → ClosedRun quote run →
      Whole (.quoted (quote :: run))
  | lineComment {text : Text} : '\n' ∉ text →
      Text.trimEnd ('-' :: '-' :: text) = '-' :: '-' :: text →
      Whole (.lineComment ('-' :: '-' :: text))
  | blockComment {run : Text} : ClosedComment run → Whole (.blockComment ('/' :: '*' :: run))
  | openParen : Whole .openParen
  | closeParen : Whole .closeParen
  | comma : Whole .comma
  | semicolon : Whole .semicolon

/-- The tokens that reading ends only because the text ends: a quoted run or a block comment
without its closing mark. -/
inductive CutOff : Token → Prop where
  | quoted {quote : Char} {run : Text} : isQuote quote = true → OpenRun quote run →
      CutOff (.quoted (quote :: run))
  | blockComment {run : Text} : ¬ commentEnd <:+: run → CutOff (.blockComment ('/' :: '*' :: run))

/-- What has to be true of a text for a whole token to end in front of it. -/
def EndsAt : Token → Text → Prop
  | word _, rest => endsWord rest = true
  | quoted t, rest => ∀ c, rest.head? = some c → t.head? ≠ some c
  | lineComment _, rest => rest = [] ∨ rest.head? = some '\n'
  | _, _ => True

theorem Whole.next?_append (h : Whole token) (hend : EndsAt token rest)
    (hdash : startsLineComment rest = false) :
    next? (token.source ++ rest) = some (token, rest) := by
  cases h with
  | @word t hne hrun =>
      cases t with
      | nil => exact absurd rfl hne
      | cons c t =>
          have hc := endsWord_cons_append hrun.1 hend hdash
          rw [endsWord, Bool.or_eq_false_iff, Bool.or_eq_false_iff, Bool.or_eq_false_iff,
            Bool.or_eq_false_iff] at hc
          obtain ⟨⟨⟨⟨-, hdelimiter⟩, hquote⟩, hline⟩, hblock⟩ := hc
          have hread := (Reads.word hdelimiter hquote hline hblock).next?_eq
          rwa [hrun.2.wordRun_append hend hdash] at hread
  | @quoted quote t hquote hrun =>
      have hrest : rest.head? ≠ some quote := fun hhead => hend quote hhead rfl
      have hread := (Reads.quoted hquote (t ++ rest)).next?_eq
      rwa [hrun.quotedRun_append hrest] at hread
  | @lineComment t hline htrim =>
      have hinside : ∀ c ∈ '-' :: t, (c != '\n') = true := by
        intro c hc
        rcases List.mem_cons.1 hc with rfl | hc
        · rfl
        · simpa using fun heq : c = '\n' => hline (heq ▸ hc)
      have houtside : ∀ c, rest.head? = some c → (c != '\n') = false := by
        intro c hc
        rcases hend with rfl | hhead
        · simp at hc
        · rw [hhead, Option.some.injEq] at hc
          simp [← hc]
      have htake := Text.takeWhile_append_of_head? hinside houtside
      have hdrop := Text.dropWhile_append_of_head? hinside houtside
      rw [List.cons_append] at htake hdrop
      have hread := (Reads.lineComment (t ++ rest)).next?_eq
      rwa [htake, hdrop, htrim] at hread
  | @blockComment t hrun =>
      have hread := (Reads.blockComment (t ++ rest)).next?_eq
      rwa [hrun.commentRun_append rest] at hread
  | openParen => rfl
  | closeParen => rfl
  | comma => rfl
  | semicolon => rfl

theorem CutOff.next?_source (h : CutOff token) : next? token.source = some (token, []) := by
  cases h with
  | @quoted quote t hquote hrun =>
      have hread := (Reads.quoted hquote t).next?_eq
      rwa [hrun.quotedRun_eq] at hread
  | @blockComment t hrun =>
      have hopen := commentRun_of_not_infix hrun
      have hread := (Reads.blockComment t).next?_eq
      rwa [hopen] at hread

/-- A line comment keeps at least its two dashes, and loses a gap at its end. -/
theorem lineComment_spec (t : Text) :
    let token := lineComment (Text.trimEnd ('-' :: ('-' :: t).takeWhile (· != '\n')))
    let rest := ('-' :: t).dropWhile (· != '\n')
    (∃ g, Text.IsGap g ∧ '-' :: '-' :: t = token.source ++ g ++ rest) ∧
      Whole token ∧ EndsAt token rest := by
  intro token rest
  have hsplit : ('-' :: t).takeWhile (· != '\n') ++ rest = '-' :: t :=
    List.takeWhile_append_dropWhile
  have htext : '-' :: ('-' :: t).takeWhile (· != '\n') = "--".toList ++ t.takeWhile (· != '\n') :=
    rfl
  obtain ⟨g, hg, htrim⟩ :=
    Text.exists_trimEnd_append_gap ('-' :: ('-' :: t).takeWhile (· != '\n'))
  refine ⟨⟨g, hg, ?_⟩, ?_, ?_⟩
  · change '-' :: '-' :: t = Text.trimEnd _ ++ g ++ rest
    rw [← htrim, List.cons_append, hsplit]
  · have hkeep := Text.trimEnd_append_of_trimEnd_eq (s := "--".toList) rfl
      (t.takeWhile (· != '\n'))
    change Whole (lineComment (Text.trimEnd _))
    rw [htext, hkeep]
    refine .lineComment ?_ ?_
    · intro hmem
      have hinside := (List.rdropWhile_prefix isBlank _).subset hmem
      simpa using List.mem_takeWhile_imp hinside
    · exact (congrArg Text.trimEnd hkeep.symm).trans ((Text.trimEnd_trimEnd _).trans hkeep)
  · cases hrest : rest with
    | nil => exact .inl rfl
    | cons c others =>
        have hc := List.head?_dropWhile_not (· != '\n') ('-' :: t)
        rw [show ('-' :: t).dropWhile (· != '\n') = c :: others from hrest] at hc
        simp only [List.head?_cons, bne_eq_false_iff_eq] at hc
        exact .inr (congrArg some hc)

/-- Reading gives a whole token and stops where that token ends, or one that is cut off. The
text is the source of the token and the rest, with the blanks that a line comment loses. -/
theorem next?_spec (hblank : t.startsBlank = false) (h : next? t = some (token, rest)) :
    (∃ g, Text.IsGap g ∧ t = token.source ++ g ++ rest) ∧
      ((Whole token ∧ EndsAt token rest) ∨ (CutOff token ∧ rest = [])) := by
  cases reads_of_next? h with
  | openParen => exact ⟨⟨[], Text.isGap_nil, rfl⟩, .inl ⟨.openParen, trivial⟩⟩
  | closeParen => exact ⟨⟨[], Text.isGap_nil, rfl⟩, .inl ⟨.closeParen, trivial⟩⟩
  | comma => exact ⟨⟨[], Text.isGap_nil, rfl⟩, .inl ⟨.comma, trivial⟩⟩
  | semicolon => exact ⟨⟨[], Text.isGap_nil, rfl⟩, .inl ⟨.semicolon, trivial⟩⟩
  | @quoted quote hquote t =>
      refine ⟨⟨[], Text.isGap_nil, by simp [source, quotedRun_append]⟩, ?_⟩
      rcases quotedRun_closed_or_open quote t with ⟨hrun, hrest⟩ | ⟨hrun, hrest⟩
      · left
        refine ⟨.quoted hquote hrun, ?_⟩
        intro d hd heq
        simp only [List.head?_cons, Option.some.injEq] at heq
        exact hrest (heq ▸ hd)
      · exact .inr ⟨.quoted hquote hrun, hrest⟩
  | lineComment t => exact ⟨(lineComment_spec t).1, .inl (lineComment_spec t).2⟩
  | blockComment t =>
      refine ⟨⟨[], Text.isGap_nil, by simp [source, commentRun_append]⟩, ?_⟩
      rcases commentRun_closed_or_open t with hrun | ⟨hrun, hrest⟩
      · exact .inl ⟨.blockComment hrun, trivial⟩
      · exact .inr ⟨.blockComment hrun, hrest⟩
  | @word c t hdelimiter hquote hline hblock =>
      refine ⟨⟨[], Text.isGap_nil, by simp [source, wordRun_append]⟩, .inl ⟨?_, (wordRun_spec t).2⟩⟩
      have hblank' : isBlank c = false := hblank
      have hend : endsWord (c :: t) = false := by
        simp [endsWord, hblank', hdelimiter, hquote, hline, hblock]
      exact .word (List.cons_ne_nil _ _) ⟨endsWord_cons_wordRun hend, (wordRun_spec t).1⟩

/-- A token that is no line comment is read off the text as it stands there. -/
theorem source_append_of_next? (h : next? t = some (token, rest))
    (hline : ∀ w, token ≠ lineComment w) : t = token.source ++ rest := by
  cases reads_of_next? h with
  | openParen => rfl
  | closeParen => rfl
  | comma => rfl
  | semicolon => rfl
  | quoted => simp [source, quotedRun_append]
  | lineComment => exact absurd rfl (hline _)
  | blockComment => simp [source, commentRun_append]
  | word => simp [source, wordRun_append]

end Token
end DdlDiagram
