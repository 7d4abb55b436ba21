import DdlDiagram.Proofs.Respaced.Groups
import DdlDiagram.Proofs.Respaced.Statement
import DdlDiagram.Proofs.TableBody.Padded
import DdlDiagram.Proofs.Text.Lines

/-!
# Chunks of two texts

Where a text with no open quote is followed by blanks and a boundary, its chunks are cut as in
the text on its own: the last one takes the blanks, and behind them the chunks of the second text
follow. A header that the first text leaves half-written is none, since the word `CREATE` does
not complete it.
-/

namespace DdlDiagram

variable {t u v g : Text} {quote : Quote} {previous : Option Char} {c : Char}

namespace Keyword

/-- Of two keywords a text is at most one. -/
theorem spelling_toLower_injective : ∀ k ∈ [temporary, temp, table],
    create.spelling.map Char.toLower ≠ k.spelling.map Char.toLower := by decide

theorem not_is_of_is_create {k : Keyword} (hk : k ∈ [temporary, temp, table])
    (h : create.is t = true) : k.is t = false :=
  is_eq_false_of_is h (spelling_toLower_injective k hk)

end Keyword

namespace Statement

theorem EndsHeader.of_isGap (hg : Text.IsGap g) : EndsHeader g where
  startsIdentifier := by
    cases g with
    | nil => rfl
    | cons c rest => exact isIdentifierChar_eq_false_of_isBlank (Text.isGap_cons.1 hg).1
  strip? k _ := by
    rw [hg.trimStart]
    exact Keyword.strip?_of_startsIdentifier k rfl

/-- A boundary starts with the word `CREATE`. -/
theorem strip?_create_of_behindHeader? (h : (behindHeader? u).isSome = true) :
    (Keyword.create.strip? u).isSome = true := by
  rw [behindHeader?_eq, Option.isSome_iff_exists] at h
  obtain ⟨r, hr⟩ := h
  obtain ⟨v, hv, -⟩ := Option.bind_eq_some_iff.1 hr
  obtain ⟨w, hw, -⟩ := Option.map_eq_some_iff.1 hv
  rw [hw]
  rfl

theorem startsBlank_of_behindHeader? (h : (behindHeader? u).isSome = true) :
    u.startsBlank = false := by
  cases u with
  | nil => rfl
  | cons c rest =>
      by_contra hblank
      have hc : isBlank c = true := Bool.not_eq_false _ ▸ hblank
      have hstart : Text.startsIdentifier (c :: rest) = false :=
        isIdentifierChar_eq_false_of_isBlank hc
      rw [behindHeader?_of_startsIdentifier hstart] at h
      exact Bool.false_ne_true h

/-- Blanks and a boundary complete no header. -/
theorem EndsHeader.gap_append (hg : Text.IsGap g) (hne : g ≠ [])
    (hu : (behindHeader? u).isSome = true) : EndsHeader (g ++ u) where
  startsIdentifier := by
    cases g with
    | nil => exact absurd rfl hne
    | cons c rest => exact isIdentifierChar_eq_false_of_isBlank (Text.isGap_cons.1 hg).1
  strip? := by
    intro k hk
    have htrim := Text.trimStart_of_startsBlank_eq_false (startsBlank_of_behindHeader? hu)
    have hcreate := strip?_create_of_behindHeader? hu
    rw [Keyword.strip?_eq, Option.isSome_ite] at hcreate
    rw [hg.trimStart_append, htrim, Keyword.strip?_eq,
      if_neg (by simp [Keyword.not_is_of_is_create hk hcreate])]

/-- Rests of a text and of the same text in front of another one. Where nothing is left of the
first text, blanks have been skipped on in the second one. -/
def RestsBefore (v r r' : Text) : Prop := r' = r ++ v ∨ r = [] ∧ r' = v.trimStart

variable {k : Keyword} {r r' : Text}

theorem restsBefore_trimStart (v t : Text) : RestsBefore v t.trimStart (t ++ v).trimStart := by
  rw [RestsBefore, Text.trimStart, Text.trimStart, List.dropWhile_append]
  cases h : t.dropWhile isBlank with
  | nil => exact .inr ⟨rfl, rfl⟩
  | cons c rest => exact .inl rfl

theorem strip?_append (hv : v.startsIdentifier = false) (k : Keyword) (t : Text) :
    Option.Rel (fun r r' => r' = r ++ v) (k.strip? t) (k.strip? (t ++ v)) := by
  obtain ⟨hword, hrest⟩ := Text.run_append (Text.head?_of_startsIdentifier hv) t
  rw [Keyword.strip?_eq, Keyword.strip?_eq, hword]
  split
  · exact .some hrest
  · exact .none

theorem EndsHeader.strip?_rests (hv : EndsHeader v) (hk : k ∈ [.temporary, .temp, .table])
    (h : RestsBefore v r r') :
    Option.Rel (fun r r' => r' = r ++ v) (k.strip? r) (k.strip? r') := by
  rcases h with rfl | ⟨rfl, rfl⟩
  · exact strip?_append hv.startsIdentifier k r
  · rw [hv.strip? k hk, Keyword.strip?_of_startsIdentifier k rfl]
    exact .none

theorem EndsHeader.skip?_rests (hv : EndsHeader v) (hk : k ∈ [.temporary, .temp, .table])
    (h : RestsBefore v r r') :
    Option.Rel (RestsBefore v) (TableBody.skip? k r) (TableBody.skip? k r') := by
  refine (hv.strip?_rests hk h).map fun r r' hr => ?_
  rw [hr]
  exact restsBefore_trimStart v r

/-- A text starts with the same header in front of a text that completes none. -/
theorem EndsHeader.behindHeader?_append (hv : EndsHeader v) (t : Text) :
    Option.Rel (fun r r' => r' = r ++ v) (behindHeader? t) (behindHeader? (t ++ v)) := by
  rw [behindHeader?_eq, behindHeader?_eq]
  have hcreate : Option.Rel (RestsBefore v) (TableBody.skip? .create t)
      (TableBody.skip? .create (t ++ v)) := by
    refine (strip?_append hv.startsIdentifier .create t).map fun r r' hr => ?_
    rw [hr]
    exact restsBefore_trimStart v r
  apply hcreate.bind
  intro u u' hu
  have htemporary := hv.skip?_rests (k := .temporary) (by simp) hu
  have htemp := hv.skip?_rests (k := .temp) (by simp) hu
  exact hv.strip?_rests (by simp) ((htemporary.orElse htemp).getD hu)

/-- In front of a text that completes no header, a text is cut as on its own, and its last segment
goes on into that text. -/
theorem segments_append (hv : EndsHeader v) (quote : Quote) (previous : Option Char) (t : Text) :
    ∃ front last, segments quote previous t = front ++ [last] ∧
      segments quote previous (t ++ v) =
        front ++ Text.prepend last (segments (quote.afterText t) none v) := by
  induction t generalizing quote previous with
  | nil => exact ⟨[], [], rfl, segments_of_startsIdentifier previous none hv.startsIdentifier⟩
  | cons c rest ih =>
      obtain ⟨front, last, heq, heq'⟩ := ih (quote.after c) (some c)
      have hboundary : isBoundary quote previous (c :: (rest ++ v)) =
          isBoundary quote previous (c :: rest) := by
        rw [isBoundary, isBoundary, ← List.cons_append, (hv.behindHeader?_append _).isSome_eq]
      have hcons : ∃ front' last', Text.consHead c (front ++ [last]) = front' ++ [last'] ∧
          Text.consHead c (front ++ Text.prepend last
            (segments ((quote.after c).afterText rest) none v)) = front' ++ Text.prepend last'
            (segments ((quote.after c).afterText rest) none v) := by
        cases front with
        | nil => exact ⟨[], c :: last, rfl, rfl⟩
        | cons first front => exact ⟨(c :: first) :: front, last, rfl, rfl⟩
      obtain ⟨front', last', hfirst, hfirst'⟩ := hcons
      rw [List.cons_append, segments, segments, hboundary, heq, heq', hfirst, hfirst']
      split
      · exact ⟨[] :: front', last', rfl, rfl⟩
      · exact ⟨front', last', rfl, rfl⟩

/-- Texts without anything in front of their first boundary. -/
def StartsChunk (u : Text) : Prop := u = [] ∨ (behindHeader? u).isSome = true

/-- Behind a gap such a text is cut in front, and only its chunks count. -/
theorem StartsChunk.segments_gap_append (hu : StartsChunk u) (hg : Text.IsGap g) :
    ∃ others, segments none none (g ++ u) = g :: others ∧
      others.filterMap behindHeader? = chunks u := by
  have hquote : Option.all isQuote none = true := rfl
  obtain ⟨last, heq, hlast⟩ := Statement.segments_gap_append hquote hg none u
  have hfirst : last.any isIdentifierChar = Option.any isIdentifierChar none := by
    rw [hlast, Option.any_none, Bool.and_false]
  have hstart : ∃ others, segments none none u = [] :: others := by
    rcases hu with rfl | hheader
    · exact ⟨[], rfl⟩
    · cases u with
      | nil => exact ⟨[], rfl⟩
      | cons c rest =>
          rw [segments, isBoundary, hheader]
          exact ⟨_, rfl⟩
  obtain ⟨others, hothers⟩ := hstart
  refine ⟨others, ?_, ?_⟩
  · rw [heq, segments_congr hfirst, hothers, Text.prepend_head,
      List.append_nil]
  · rw [chunks_eq, hothers]
    rfl

theorem StartsChunk.chunks_gap_append (hu : StartsChunk u) (hg : Text.IsGap g) :
    chunks (g ++ u) = chunks u := by
  obtain ⟨others, heq, hothers⟩ := hu.segments_gap_append hg
  rw [chunks_eq, heq, ← hothers]
  rfl

/-- The chunks of a text with no open quote, and behind blanks those of a text that starts with a
boundary. Of the first ones the last one takes the blanks. -/
theorem StartsChunk.chunks_append (hu : StartsChunk u) (hg : Text.IsGap g) (hne : g ≠ [])
    (ht : Quote.afterText none t = none) : ∃ front,
      chunks (t ++ (g ++ u)) = front ++ chunks u ∧
      List.Forall₂ Text.Padded (chunks t) front := by
  have hends : EndsHeader (g ++ u) := by
    rcases hu with rfl | hheader
    · rw [List.append_nil]
      exact .of_isGap hg
    · exact .gap_append hg hne hheader
  obtain ⟨front, last, heq, heq'⟩ := segments_append hends none none t
  obtain ⟨others, hothers, hchunks⟩ := hu.segments_gap_append hg
  rw [ht, hothers, Text.prepend_head] at heq'
  rw [← hchunks, chunks_eq, chunks_eq, heq, heq']
  cases front with
  | nil => exact ⟨[], rfl, .nil⟩
  | cons first front =>
      refine ⟨(front ++ [last ++ g]).filterMap behindHeader?, ?_, ?_⟩
      · rw [← List.filterMap_append, List.append_assoc]
        rfl
      · have hsegments : List.Forall₂ Text.Padded (front ++ [last]) (front ++ [last ++ g]) :=
          List.rel_append (List.forall₂_same.2 fun segment _ => .refl segment)
            (.cons (hg.padded last) .nil)
        refine List.rel_filterMap ?_ hsegments
        rintro segment segment' ⟨g', hg', rfl⟩
        exact ((EndsHeader.of_isGap hg').behindHeader?_append segment).mono
          fun r r' hr => ⟨g', hg', hr⟩

/-- Blanks leave an open run open and open none. -/
theorem quote_afterText_append_gap (hg : Text.IsGap g) (t : Text) :
    Quote.afterText none (t ++ g) = Quote.afterText none t := by
  have hquote := Nesting.all_isQuote_afterText (s := .top) t rfl
  have hopen : ∀ t, Quote.afterText none t = (Nesting.top.afterText t).quote := fun t =>
    (Nesting.quote_afterText .top t).symm
  rw [hopen, hopen, Nesting.afterText_append, Nesting.after_of_isGap hg hquote]

theorem map_ofChunk_of_padded {chunks chunks' : List Text}
    (h : List.Forall₂ Text.Padded chunks chunks') :
    chunks'.map TableBody.ofChunk = chunks.map TableBody.ofChunk := by
  induction h with
  | nil => rfl
  | cons hchunk _ ih => rw [List.map_cons, List.map_cons, TableBody.ofChunk_padded hchunk, ih]

/-- Behind a text with no open quote and no open line, the chunks of a text that starts with a
boundary follow, blanks before it or not. A line feed more at the end of the first text makes no
difference to what its chunks declare. -/
theorem chunks_append_of_endsLine (hu : (behindHeader? u.trimStart).isSome = true)
    (ht : Quote.afterText none t = none) (hg : g = ['\n'] ∨ g = [] ∧ t.EndsLine) :
    ∃ front, chunks (t ++ g ++ u) = front ++ chunks u ∧
      front.map TableBody.ofChunk = (chunks t).map TableBody.ofChunk := by
  obtain ⟨gap, hgap, hsplit⟩ := Text.exists_gap_append_trimStart u
  have hstarts : StartsChunk u.trimStart := .inr hu
  have hchunks : chunks u = chunks u.trimStart := by
    rw [hsplit, hstarts.chunks_gap_append hgap, ← hsplit]
  have hfeed : Text.IsGap ('\n' :: gap) := Text.isGap_cons.2 ⟨rfl, hgap⟩
  have hseam : ∀ t, Quote.afterText none t = none → ∃ front,
      chunks (t ++ '\n' :: u) = front ++ chunks u ∧
        front.map TableBody.ofChunk = (chunks t).map TableBody.ofChunk := by
    intro t ht
    obtain ⟨front, heq, hfront⟩ := hstarts.chunks_append hfeed (by simp) ht
    rw [List.cons_append, ← hsplit, ← hchunks] at heq
    exact ⟨front, heq, map_ofChunk_of_padded hfront⟩
  rcases hg with rfl | ⟨rfl, hend⟩
  · rw [List.append_assoc]
    exact hseam t ht
  · rw [List.append_nil]
    obtain rfl | ⟨s, rfl⟩ := hend.eq_nil_or_eq_append
    · exact ⟨[], rfl, by rw [chunks_nil]⟩
    · -- The feed that ends the text is the gap in front of the boundary.
      have hs : Quote.afterText none s = none :=
        (quote_afterText_append_gap Text.isGap_feed s).symm.trans ht
      obtain ⟨front, heq, hfront⟩ := hseam s hs
      obtain ⟨front', heq', hfront'⟩ :=
        StartsChunk.chunks_append (.inl rfl) Text.isGap_feed (by simp) hs
      rw [List.append_nil, chunks_nil, List.append_nil] at heq'
      refine ⟨front, by rw [List.append_assoc]; exact heq, ?_⟩
      rw [heq', hfront, map_ofChunk_of_padded hfront']

end Statement
end DdlDiagram
