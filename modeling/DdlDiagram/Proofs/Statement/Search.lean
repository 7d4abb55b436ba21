import DdlDiagram.Proofs.Statement.Segments

/-!
# Searching for boundaries

The search for boundaries forgets what it has read: behind a header, and behind a word `CREATE`
that starts none, it goes on as if the text started there. It finds what a scan of the whole text
finds, since all of this stands outside quoted runs, and no boundary lies within a header. So the
chunks are the segments of the text without their headers.
-/

namespace DdlDiagram
namespace Statement

variable {quote : Quote} {previous : Option Char} {c : Char} {t u g before found : Text}

theorem skipBlanks?_eq_some_iff : skipBlanks? t = some u ↔
    ∃ g, t = g ++ u ∧ Text.IsGap g ∧ g ≠ [] ∧ u.startsBlank = false := by
  rw [skipBlanks?, Option.ite_none_right_eq_some, Option.some.injEq]
  constructor
  · rintro ⟨hblank, rfl⟩
    obtain ⟨g, hg, hsplit⟩ := Text.exists_gap_append_trimStart t
    refine ⟨g, hsplit, hg, ?_, Text.startsBlank_trimStart t⟩
    rintro rfl
    rw [hsplit, List.nil_append, Text.startsBlank_trimStart] at hblank
    exact Bool.false_ne_true hblank
  · rintro ⟨g, rfl, hg, hne, hu⟩
    rw [hg.startsBlank_append hu, hg.trimStart_append, Text.trimStart_of_startsBlank_eq_false hu]
    exact ⟨by simpa using hne, rfl⟩

/-- The words of a boundary, with the blanks between them. -/
inductive IsHeader : Text → Prop
  | plain {create gap table : Text} (hcreate : Keyword.create.is create = true)
      (hgap : Text.IsGap gap) (hne : gap ≠ []) (htable : Keyword.table.is table = true) :
      IsHeader (create ++ (gap ++ table))
  | temporary {create gap modifier gap' table : Text} (hcreate : Keyword.create.is create = true)
      (hgap : Text.IsGap gap) (hne : gap ≠ [])
      (hmodifier : Keyword.temporary.is modifier = true ∨ Keyword.temp.is modifier = true)
      (hgap' : Text.IsGap gap') (hne' : gap' ≠ []) (htable : Keyword.table.is table = true) :
      IsHeader (create ++ (gap ++ (modifier ++ (gap' ++ table))))

theorem startsBlank_append_of_is {k : Keyword} {w : Text} (hw : k.is w = true) (u : Text) :
    Text.startsBlank (w ++ u) = false := by
  have hbare := Keyword.isBare_of_is hw
  cases w with
  | nil => exact absurd rfl (Keyword.ne_nil_of_is hw)
  | cons c rest => exact isBlank_eq_false_of_isIdentifierChar (hbare c List.mem_cons_self)

theorem strip?_append_of_is {k : Keyword} {w : Text} (hw : k.is w = true)
    (hu : u.startsIdentifier = false) : k.strip? (w ++ u) = some u := by
  rw [Keyword.strip?_append (Keyword.isBare_of_is hw) hu, if_pos hw]

theorem strip?_append_of_is_other {k k' : Keyword} {w : Text} (hw : k.is w = true)
    (hu : u.startsIdentifier = false)
    (hne : k.spelling.map Char.toLower ≠ k'.spelling.map Char.toLower) :
    k'.strip? (w ++ u) = none := by
  have hother := Keyword.is_eq_false_of_is hw hne
  rw [Keyword.strip?_append (Keyword.isBare_of_is hw) hu, if_neg (by simp [hother])]

theorem skipBlanks?_append_of_is {k : Keyword} {w : Text} (hw : k.is w = true)
    (hg : Text.IsGap g) (hne : g ≠ []) (u : Text) :
    skipBlanks? (g ++ (w ++ u)) = some (w ++ u) :=
  skipBlanks?_eq_some_iff.2 ⟨g, rfl, hg, hne, startsBlank_append_of_is hw u⟩

theorem IsHeader.behindHeader?_append (h : IsHeader t) (hu : u.startsIdentifier = false) :
    behindHeader? (t ++ u) = some u := by
  cases h with
  | @plain create gap table hcreate hgap hne htable =>
      have hblank : Text.startsIdentifier (gap ++ (table ++ u)) = false :=
        hgap.startsIdentifier_append (.inl hne)
      have htemporary : Keyword.temporary.strip? (table ++ u) = none :=
        strip?_append_of_is_other htable hu (by decide)
      have htemp : Keyword.temp.strip? (table ++ u) = none :=
        strip?_append_of_is_other htable hu (by decide)
      rw [List.append_assoc, List.append_assoc, behindHeader?, strip?_append_of_is hcreate hblank]
      simp [skipBlanks?_append_of_is htable hgap hne, htemporary, htemp,
        strip?_append_of_is htable hu]
  | @temporary create gap modifier gap' table hcreate hgap hne hmodifier hgap' hne' htable =>
      have hblank' : Text.startsIdentifier (gap' ++ (table ++ u)) = false :=
        hgap'.startsIdentifier_append (.inl hne')
      have hblank : Text.startsIdentifier (gap ++ (modifier ++ (gap' ++ (table ++ u)))) = false :=
        hgap.startsIdentifier_append (.inl hne)
      have hskip : skipBlanks? (gap ++ (modifier ++ (gap' ++ (table ++ u)))) =
          some (modifier ++ (gap' ++ (table ++ u))) := by
        rcases hmodifier with hmodifier | hmodifier
        · exact skipBlanks?_append_of_is hmodifier hgap hne _
        · exact skipBlanks?_append_of_is hmodifier hgap hne _
      have hstrip : (Keyword.temporary.strip? (modifier ++ (gap' ++ (table ++ u))) <|>
          Keyword.temp.strip? (modifier ++ (gap' ++ (table ++ u)))) =
            some (gap' ++ (table ++ u)) := by
        rcases hmodifier with hmodifier | hmodifier
        · rw [strip?_append_of_is hmodifier hblank']
          rfl
        · rw [strip?_append_of_is hmodifier hblank',
            strip?_append_of_is_other hmodifier hblank' (by decide)]
          rfl
      simp only [List.append_assoc, behindHeader?, strip?_append_of_is hcreate hblank, hskip,
        hstrip, skipBlanks?_append_of_is htable hgap' hne', strip?_append_of_is htable hu,
        Option.bind_eq_bind, Option.bind_some]

/-- What is behind a header: the text goes on there with another word or mark. -/
theorem behindHeader?_eq_some_iff : behindHeader? t = some u ↔
    ∃ header, t = header ++ u ∧ IsHeader header ∧ u.startsIdentifier = false := by
  constructor
  · intro h
    obtain ⟨behind, hfirst, hbehind⟩ := Option.bind_eq_some_iff.1 h
    obtain ⟨next, hskip, hnext⟩ := Option.bind_eq_some_iff.1 hbehind
    obtain ⟨create, rfl, hcreate, -⟩ := Keyword.strip?_eq_some_iff.1 hfirst
    obtain ⟨gap, rfl, hgap, hne, -⟩ := skipBlanks?_eq_some_iff.1 hskip
    split at hnext
    · rename_i rest hstrip
      obtain ⟨last, hskip', hlast⟩ := Option.bind_eq_some_iff.1 hnext
      obtain ⟨gap', rfl, hgap', hne', -⟩ := skipBlanks?_eq_some_iff.1 hskip'
      obtain ⟨table, rfl, htable, hu⟩ := Keyword.strip?_eq_some_iff.1 hlast
      obtain ⟨modifier, rfl, hmodifier⟩ : ∃ modifier, next = modifier ++ (gap' ++ (table ++ u)) ∧
          (Keyword.temporary.is modifier = true ∨ Keyword.temp.is modifier = true) := by
        cases htemporary : Keyword.temporary.strip? next with
        | some _ =>
            rw [htemporary] at hstrip
            obtain ⟨w, hw, his, -⟩ := Keyword.strip?_eq_some_iff.1 (htemporary.trans hstrip)
            exact ⟨w, hw, .inl his⟩
        | none =>
            rw [htemporary] at hstrip
            obtain ⟨w, hw, his, -⟩ := Keyword.strip?_eq_some_iff.1 hstrip
            exact ⟨w, hw, .inr his⟩
      refine ⟨_, ?_, .temporary hcreate hgap hne hmodifier hgap' hne' htable, hu⟩
      simp only [List.append_assoc]
    · obtain ⟨table, rfl, htable, hu⟩ := Keyword.strip?_eq_some_iff.1 hnext
      refine ⟨_, ?_, .plain hcreate hgap hne htable, hu⟩
      simp only [List.append_assoc]
  · rintro ⟨header, rfl, hheader, hu⟩
    exact hheader.behindHeader?_append hu

theorem Quiet.gap (hg : Text.IsGap g) (u : Text) : Quiet g u := by
  induction g with
  | nil => exact .nil u
  | cons c rest ih =>
      obtain ⟨hc, hrest⟩ := Text.isGap_cons.1 hg
      have hquote : isQuote c = false := by
        by_contra hquote
        exact absurd hc (by
          simp only [isQuote, Bool.not_eq_false, Bool.or_eq_true, beq_iff_eq] at hquote
          rcases hquote with (rfl | rfl) | rfl <;> decide)
      exact .mark (isIdentifierChar_eq_false_of_isBlank hc) hquote (ih hrest)

/-- A keyword other than `CREATE` starts no segment. -/
theorem Quiet.keyword {k : Keyword} {w : Text} (hw : k.is w = true)
    (hne : k.spelling.map Char.toLower ≠ Keyword.create.spelling.map Char.toLower)
    (hu : u.startsIdentifier = false) : Quiet w u :=
  .word (Keyword.isBare_of_is hw) (Keyword.ne_nil_of_is hw) (Keyword.is_eq_false_of_is hw hne) hu

/-- A header starts a segment, and no other one starts within it. -/
theorem IsHeader.segments_append (h : IsHeader t) (hu : u.startsIdentifier = false) :
    segments none none (t ++ u) = [] :: Text.prepend t (segments none none u) := by
  have hheader := h.behindHeader?_append hu
  have hfirst : ∀ {create w : Text}, Keyword.create.is create = true → t = create ++ w →
      Text.startsIdentifier (w ++ u) = false → Quiet w u →
      segments none none (t ++ u) = [] :: Text.prepend t (segments none none u) := by
    rintro create w hcreate rfl hw hquiet
    rw [List.append_assoc] at hheader ⊢
    rw [segments_word (Keyword.isBare_of_is hcreate) (Keyword.ne_nil_of_is hcreate) hw, hheader,
      hquiet, ← Text.prepend_append]
    rfl
  cases h with
  | @plain create gap table hcreate hgap hne htable =>
      refine hfirst hcreate rfl ?_ ((Quiet.gap hgap _).append (.keyword htable (by decide) hu))
      rw [List.append_assoc]
      exact hgap.startsIdentifier_append (.inl hne)
  | @temporary create gap modifier gap' table hcreate hgap hne hmodifier hgap' hne' htable =>
      have hblank : Text.startsIdentifier (gap' ++ table ++ u) = false := by
        rw [List.append_assoc]
        exact hgap'.startsIdentifier_append (.inl hne')
      have hword : Quiet modifier (gap' ++ table ++ u) := by
        rcases hmodifier with hmodifier | hmodifier
        · exact .keyword hmodifier (by decide) hblank
        · exact .keyword hmodifier (by decide) hblank
      have htail : Quiet (gap' ++ table) u :=
        (Quiet.gap hgap' _).append (.keyword htable (by decide) hu)
      refine hfirst hcreate rfl ?_ ((Quiet.gap hgap _).append (hword.append htail))
      rw [List.append_assoc]
      exact hgap.startsIdentifier_append (.inl hne)

/-- The search finds the word `CREATE` of every boundary. -/
theorem startsCreate_of_isBoundary (h : isBoundary quote previous (c :: t) = true) :
    (!quote.covers c && !previous.any isIdentifierChar &&
      (Keyword.create.strip? (c :: t)).isSome) = true := by
  simp only [isBoundary, Bool.and_eq_true, Option.isNone_iff_eq_none] at h
  obtain ⟨⟨rfl, hprevious⟩, hheader⟩ := h
  obtain ⟨u, hu⟩ := Option.isSome_iff_exists.1 hheader
  obtain ⟨rest, hcreate, -⟩ := Option.bind_eq_some_iff.1 hu
  obtain ⟨w, hw, his, -⟩ := Keyword.strip?_eq_some_iff.1 hcreate
  have hc : isIdentifierChar c = true := by
    cases w with
    | nil => exact absurd rfl (Keyword.ne_nil_of_is his)
    | cons d w =>
        rw [(List.cons.inj hw).1]
        exact Keyword.isBare_of_is his d List.mem_cons_self
  simp [isQuote_eq_false_of_isIdentifierChar hc, hprevious, hcreate]

/-- A text in which the search finds nothing is a single segment. -/
theorem segments_of_splitAtCreate?_eq_none (h : splitAtCreate? quote previous t = none) :
    segments quote previous t = [t] := by
  induction t generalizing quote previous with
  | nil => rfl
  | cons c rest ih =>
      rw [splitAtCreate?] at h
      split at h
      · cases h
      · rename_i hcreate
        have hboundary : isBoundary quote previous (c :: rest) = false := by
          by_contra hboundary
          exact hcreate (startsCreate_of_isBoundary (Bool.not_eq_false _ ▸ hboundary))
        rw [segments, hboundary, ih (Option.map_eq_none_iff.1 h)]
        rfl

/-- Up to the word that the search finds there is no boundary, and what stands before it makes no
difference from there on. -/
theorem segments_of_splitAtCreate? (h : splitAtCreate? quote previous t = some (before, found)) :
    segments quote previous t = Text.prepend before (segments none none found) := by
  induction t generalizing quote previous before with
  | nil => cases h
  | cons c rest ih =>
      rw [splitAtCreate?] at h
      split at h
      · rename_i hcreate
        obtain ⟨rfl, rfl⟩ := Prod.mk.inj (Option.some.inj h)
        simp only [Bool.and_eq_true, Bool.not_eq_true'] at hcreate
        obtain ⟨⟨hquote, hprevious⟩, -⟩ := hcreate
        rw [(Quote.eq_none_of_not_covers hquote).1, Text.prepend_nil]
        exact segments_congr hprevious
      · rename_i hcreate
        obtain ⟨⟨before', found'⟩, hrest, heq⟩ := Option.map_eq_some_iff.1 h
        obtain ⟨rfl, rfl⟩ := Prod.mk.inj heq
        have hboundary : isBoundary quote previous (c :: rest) = false := by
          by_contra hboundary
          exact hcreate (startsCreate_of_isBoundary (Bool.not_eq_false _ ▸ hboundary))
        rw [segments, hboundary, ih hrest]
        rfl

structure Part where
  header : Text
  chunk : Text
  deriving DecidableEq, Repr

def Part.text (part : Part) : Text := part.header ++ part.chunk

/-- Parts one after the other, the words of each boundary ending where its chunk starts. -/
inductive AreParts : List Part → Prop
  | nil : AreParts []
  | cons {part : Part} {parts : List Part} (hheader : IsHeader part.header)
      (hends : Text.startsIdentifier (part.chunk ++ parts.flatMap Part.text) = false)
      (hparts : AreParts parts) : AreParts (part :: parts)

variable {parts others : List Part}

theorem AreParts.of_append (h : AreParts (others ++ parts)) : AreParts parts := by
  induction others with
  | nil => exact h
  | cons part rest ih =>
      cases h with
      | cons _ _ hrest => exact ih hrest

theorem startsIdentifier_of_append (h : (t ++ u).startsIdentifier = false) :
    t.startsIdentifier = false := by
  cases t with
  | nil => rfl
  | cons c rest => exact h

/-- Behind the words of the first part its chunk starts. -/
theorem AreParts.endsWord {part : Part} (h : AreParts (part :: parts)) :
    IsHeader part.header ∧
      Text.startsIdentifier (part.chunk ++ parts.flatMap Part.text) = false := by
  cases h with
  | cons hheader hends _ => exact ⟨hheader, hends⟩

theorem AreParts.behindHeader?_text (h : AreParts parts) :
    ∀ part ∈ parts, behindHeader? part.text = some part.chunk := by
  induction h with
  | nil => exact nofun
  | cons hheader hends _ ih =>
      exact List.forall_mem_cons.2
        ⟨hheader.behindHeader?_append (startsIdentifier_of_append hends), ih⟩

variable {rest w : Text}

theorem cut_of_splitAtCreate?_eq_none (hfound : splitAtCreate? none none t = none) :
    cut t = (t, []) := by
  rw [cut]
  split
  · rfl
  · rename_i heq
    cases hfound.symm.trans heq

theorem cut_of_behindHeader? (hfound : splitAtCreate? none none t = some (before, found))
    (hheader : behindHeader? found = some rest) :
    cut t = (before, (cut rest).1 :: (cut rest).2) := by
  conv_lhs => rw [cut]
  split
  · rename_i heq
    cases hfound.symm.trans heq
  · rename_i heq
    obtain ⟨rfl, rfl⟩ := Prod.mk.inj (Option.some.inj (hfound.symm.trans heq))
    split
    · rename_i heq'
      obtain rfl := Option.some.inj (hheader.symm.trans heq')
      rfl
    · rename_i heq'
      cases hheader.symm.trans heq'

theorem cut_of_behindHeader?_eq_none
    (hfound : splitAtCreate? none none t = some (before, w ++ u))
    (hw : Keyword.create.is w = true) (hheader : behindHeader? (w ++ u) = none) :
    cut t = (before ++ w ++ (cut u).1, (cut u).2) := by
  conv_lhs => rw [cut]
  split
  · rename_i heq
    cases hfound.symm.trans heq
  · rename_i heq
    obtain ⟨rfl, rfl⟩ := Prod.mk.inj (Option.some.inj (hfound.symm.trans heq))
    split
    · rename_i heq'
      cases hheader.symm.trans heq'
    · rw [← Keyword.length_of_is hw, List.take_left, List.drop_left]

/-- A text by the parts that its segments are. -/
theorem eq_append_of_segments_eq
    (hsegments : segments none none t = before :: parts.map Part.text) :
    t = before ++ parts.flatMap Part.text := by
  have hflatten := flatten_segments none none t
  rw [hsegments, List.flatten_cons, ← List.flatMap_def] at hflatten
  exact hflatten.symm

/-- The parts that the search cuts a text into are its segments. -/
theorem exists_parts (t : Text) : ∃ parts, AreParts parts ∧
    segments none none t = (cut t).1 :: parts.map Part.text ∧
    (cut t).2 = parts.map Part.chunk := by
  induction t using cut.induct with
  | case1 t hfound =>
      rw [cut_of_splitAtCreate?_eq_none hfound]
      exact ⟨[], .nil, segments_of_splitAtCreate?_eq_none hfound, rfl⟩
  | case2 t before found hfound rest hheader ih =>
      obtain ⟨parts, hparts, hsegments, hchunks⟩ := ih
      obtain ⟨header, rfl, hwords, hends⟩ := behindHeader?_eq_some_iff.1 hheader
      rw [cut_of_behindHeader? hfound hheader]
      refine ⟨⟨header, (cut rest).1⟩ :: parts, .cons hwords ?_ hparts, ?_, ?_⟩
      · rw [← eq_append_of_segments_eq hsegments]
        exact hends
      · rw [segments_of_splitAtCreate? hfound, hwords.segments_append hends, hsegments,
          Text.prepend_head, Text.prepend_head, List.append_nil]
        rfl
      · rw [hchunks]
        rfl
  | case3 t before found hfound hheader ih =>
      obtain ⟨parts, hparts, hsegments, hchunks⟩ := ih
      obtain ⟨u, hcreate⟩ := Option.isSome_iff_exists.1 (splitAtCreate?_spec hfound).2
      obtain ⟨w, rfl, hw, hu⟩ := Keyword.strip?_eq_some_iff.1 hcreate
      rw [← Keyword.length_of_is hw, List.drop_left] at hsegments hchunks
      rw [cut_of_behindHeader?_eq_none hfound hw hheader]
      refine ⟨parts, hparts, ?_, hchunks⟩
      rw [segments_of_splitAtCreate? hfound, segments_word (Keyword.isBare_of_is hw)
        (Keyword.ne_nil_of_is hw) hu, hheader, hsegments, List.append_assoc]
      simp

/-- The chunks of a text are its segments without their headers. -/
theorem chunks_eq (t : Text) : chunks t = (segments none none t).tail.filterMap behindHeader? := by
  obtain ⟨parts, hparts, hsegments, hchunks⟩ := exists_parts t
  rw [chunks, hchunks, hsegments, List.tail_cons, List.filterMap_map]
  exact ((List.filterMap_congr hparts.behindHeader?_text).trans
    (congrFun List.filterMap_eq_map' parts)).symm

@[simp] theorem chunks_nil : chunks [] = [] := chunks_eq []

end Statement
end DdlDiagram
