import DdlDiagram.Proofs.Statement.Search

/-!
# Chunks and boundaries

Where the boundaries of a text are is a matter of the whole text: the words of a header stand
there, as whole words, and no quoted run that was opened before is still open. The search, which
looks at one piece of the text at a time, gives one chunk for each of these boundaries, in order
and up to the next one.
-/

namespace DdlDiagram
namespace Statement

variable {quote : Quote} {previous : Option Char} {others : List Text} {part : Part}
variable {t first front header behind preamble chunk : Text} {parts before after : List Part}

/-- A segment other than the first one starts exactly where the scan of the whole text has come to
a boundary. -/
theorem isBoundary_iff_of_segments_eq (hsegments : segments quote previous t = first :: others)
    (hsplit : t = front ++ behind) :
    isBoundary (quote.afterText front) (front.getLast?.or previous) behind = true ↔
      ∃ before after, others = before ++ after ∧ after ≠ [] ∧ front = first ++ before.flatten := by
  induction t generalizing quote previous first others front with
  | nil =>
      obtain ⟨rfl, rfl⟩ := List.nil_eq_append_iff.1 hsplit
      obtain ⟨rfl, rfl⟩ := List.cons.inj hsegments
      have hboundary : isBoundary quote previous [] = false :=
        isBoundary_of_startsIdentifier quote previous rfl
      simp [hboundary]
  | cons c rest ih =>
      obtain ⟨first', others', hrest⟩ :=
        List.exists_cons_of_ne_nil (segments_ne_nil (quote.after c) (some c) rest)
      rw [segments, hrest] at hsegments
      cases front with
      | nil =>
          obtain rfl : c :: rest = behind := hsplit
          change isBoundary quote previous (c :: rest) = true ↔ _
          cases hboundary : isBoundary quote previous (c :: rest) with
          | true =>
              rw [hboundary] at hsegments
              obtain ⟨rfl, rfl⟩ := List.cons.inj hsegments
              exact iff_of_true rfl ⟨[], _, rfl, List.cons_ne_nil _ _, rfl⟩
          | false =>
              rw [hboundary] at hsegments
              obtain ⟨rfl, rfl⟩ := List.cons.inj hsegments
              refine iff_of_false Bool.false_ne_true ?_
              rintro ⟨_, _, _, _, hfront⟩
              cases hfront
      | cons d front =>
          obtain ⟨rfl, hrest'⟩ := List.cons.inj hsplit
          have hlast : (c :: front).getLast?.or previous = front.getLast?.or (some c) := by
            rw [List.getLast?_cons]
            cases front.getLast? <;> rfl
          rw [Quote.afterText_cons, hlast, ih hrest hrest']
          cases hboundary : isBoundary quote previous (c :: rest) with
          | true =>
              rw [hboundary] at hsegments
              obtain ⟨rfl, rfl⟩ := List.cons.inj hsegments
              constructor
              · rintro ⟨before, after, rfl, hne, rfl⟩
                exact ⟨(c :: first') :: before, after, rfl, hne, rfl⟩
              · rintro ⟨before, after, hothers, hne, hfront⟩
                cases before with
                | nil => cases hfront
                | cons segment before =>
                    obtain ⟨rfl, rfl⟩ := List.cons.inj hothers
                    exact ⟨before, after, rfl, hne, (List.cons.inj hfront).2⟩
          | false =>
              rw [hboundary] at hsegments
              obtain ⟨rfl, rfl⟩ := List.cons.inj hsegments
              simp

/-- A place where a boundary stands, by the text in front of it, its words and the text behind
them. -/
structure IsBoundaryAt (front header behind : Text) : Prop where
  /-- No quoted run is open there. -/
  quote : Quote.afterText none front = none
  /-- Its first word starts there. -/
  startsWord : front.getLast?.any isIdentifierChar = false
  isHeader : IsHeader header
  /-- Its last word ends where the text behind it starts. -/
  endsWord : behind.startsIdentifier = false

/-- Words of a boundary stand where the scan of the text has come to a boundary. -/
theorem isBoundaryAt_iff : IsBoundaryAt front header behind ↔
    isBoundary (Quote.afterText none front) (front.getLast?.or none) (header ++ behind) = true ∧
      IsHeader header ∧ behind.startsIdentifier = false := by
  constructor
  · intro h
    refine ⟨?_, h.isHeader, h.endsWord⟩
    rw [isBoundary, h.quote, Option.or_none, h.startsWord,
      h.isHeader.behindHeader?_append h.endsWord]
    rfl
  · rintro ⟨hscan, hheader, hends⟩
    rw [isBoundary, Option.or_none] at hscan
    simp only [Bool.and_eq_true, Bool.not_eq_true', Option.isNone_iff_eq_none] at hscan
    exact ⟨hscan.1.1, hscan.1.2, hheader, hends⟩

/-- What stands behind the parts in front of a part are its words, its chunk and the parts behind
it. -/
theorem append_eq_of_parts
    (hsegments : segments none none t = preamble :: (before ++ part :: after).map Part.text)
    (hsplit : t = preamble ++ before.flatMap Part.text ++ (header ++ behind)) :
    header ++ behind = part.header ++ (part.chunk ++ after.flatMap Part.text) := by
  have hparted := (eq_append_of_segments_eq hsegments).symm.trans hsplit
  rw [List.flatMap_append, ← List.append_assoc, List.flatMap_cons] at hparted
  rw [← List.append_cancel_left hparted, Part.text, List.append_assoc]

/-- Where a boundary stands, a part starts with its words. -/
theorem IsBoundaryAt.exists_part (h : IsBoundaryAt front header behind) (hparts : AreParts parts)
    (hsegments : segments none none t = preamble :: parts.map Part.text)
    (hsplit : t = front ++ (header ++ behind)) : ∃ before chunk after,
      parts = before ++ ⟨header, chunk⟩ :: after ∧
        front = preamble ++ before.flatMap Part.text := by
  obtain ⟨befores, afters, hmap, hne, hfront⟩ :=
    (isBoundary_iff_of_segments_eq hsegments hsplit).1 (isBoundaryAt_iff.1 h).1
  obtain ⟨before, after, rfl, rfl, rfl⟩ := List.map_eq_append_iff.1 hmap
  obtain ⟨part, after, rfl⟩ := List.exists_cons_of_ne_nil (mt List.map_eq_nil_iff.2 hne)
  rw [← List.flatMap_def] at hfront
  subst hfront
  have hsame := append_eq_of_parts hsegments hsplit
  obtain ⟨hwords, hends⟩ := hparts.of_append.endsWord
  -- Both headers end where the search goes on, so they are the same.
  have hrest : behind = part.chunk ++ after.flatMap Part.text := by
    have hheader := h.isHeader.behindHeader?_append h.endsWord
    rw [hsame, hwords.behindHeader?_append hends] at hheader
    exact (Option.some.inj hheader).symm
  rw [← hrest] at hsame
  obtain rfl := List.append_cancel_right hsame
  exact ⟨before, part.chunk, after, rfl, rfl⟩

/-- Where a part starts, a boundary stands. -/
theorem isBoundaryAt_of_parts (hparts : AreParts (before ++ ⟨header, chunk⟩ :: after))
    (hsegments : segments none none t =
      preamble :: (before ++ ⟨header, chunk⟩ :: after).map Part.text)
    (hsplit : t = preamble ++ before.flatMap Part.text ++ (header ++ behind)) :
    IsBoundaryAt (preamble ++ before.flatMap Part.text) header behind := by
  have hrest := List.append_cancel_left (append_eq_of_parts hsegments hsplit)
  obtain ⟨hwords, hends⟩ := hparts.of_append.endsWord
  rw [← hrest] at hends
  refine isBoundaryAt_iff.2 ⟨?_, hwords, hends⟩
  apply (isBoundary_iff_of_segments_eq hsegments hsplit).2
  exact ⟨before.map Part.text, (⟨header, chunk⟩ :: after).map Part.text, List.map_append,
    List.cons_ne_nil _ _, by rw [List.flatMap_def]⟩

/-- A text consists of a preamble and parts, each of which is the words of a boundary and a chunk.
The boundaries of the text are exactly those of the parts, so there is one chunk for each of them,
in order, and it extends from the words of its boundary to the next boundary or the end of the
text. -/
theorem exists_parts_at_boundaries (t : Text) : ∃ (preamble : Text) (parts : List Part),
    t = preamble ++ parts.flatMap Part.text ∧ chunks t = parts.map Part.chunk ∧
    ∀ front header behind, t = front ++ (header ++ behind) →
      (IsBoundaryAt front header behind ↔ ∃ before chunk after,
        parts = before ++ ⟨header, chunk⟩ :: after ∧
          front = preamble ++ before.flatMap Part.text) := by
  obtain ⟨parts, hparts, hsegments, hchunks⟩ := exists_parts t
  refine ⟨(cut t).1, parts, eq_append_of_segments_eq hsegments, hchunks, ?_⟩
  intro front header behind hsplit
  constructor
  · intro h
    exact h.exists_part hparts hsegments hsplit
  · rintro ⟨before, chunk, after, rfl, rfl⟩
    exact isBoundaryAt_of_parts hparts hsegments hsplit

/-- What may stand behind the words of a boundary: words of another one in quotes, a word `CREATE`
that starts none, and the words of the next one. -/
def behindFirstHeader : Text := " a 'CREATE TABLE b' CREATE CREATE TABLE c".toList

theorem exists_parts_at_boundaries_behindFirstHeader :
    IsBoundaryAt "CREATE INDEX i; ".toList "create temp\ntable".toList behindFirstHeader ∧
      ∃ (preamble : Text) (before after : List Part) (chunk : Text),
        "CREATE INDEX i; ".toList = preamble ++ before.flatMap Part.text ∧
          [" a 'CREATE TABLE b' CREATE ".toList, " c".toList] =
            before.map Part.chunk ++ chunk :: after.map Part.chunk := by
  obtain ⟨preamble, parts, -, hchunks, hboundaries⟩ := exists_parts_at_boundaries
    ("CREATE INDEX i; ".toList ++ ("create temp\ntable".toList ++ behindFirstHeader))
  have hheader : IsHeader
      ("create".toList ++ ([' '] ++ ("temp".toList ++ (['\n'] ++ "table".toList)))) :=
    .temporary (by decide) Text.isGap_space (List.cons_ne_nil _ _) (.inr (by decide))
      Text.isGap_feed (List.cons_ne_nil _ _) (by decide)
  have hboundary :
      IsBoundaryAt "CREATE INDEX i; ".toList "create temp\ntable".toList behindFirstHeader :=
    ⟨by decide, by decide, hheader, by decide⟩
  obtain ⟨before, chunk, after, rfl, hfront⟩ := (hboundaries _ _ _ rfl).1 hboundary
  rw [List.map_append, List.map_cons] at hchunks
  refine ⟨hboundary, preamble, before, after, chunk, hfront, Eq.trans ?_ hchunks⟩
  decide +kernel

end Statement
end DdlDiagram
