import DdlDiagram.Nesting.Pieces
import DdlDiagram.Proofs.Respaced.Groups
import DdlDiagram.Proofs.Text.Prepend
import Mathlib.Data.List.Forall2

/-!
# Parts and words of respaced texts

Commas at top level are the same in respaced texts, so the parts between them are respaced in
turn. Words are kept apart by gaps, so they correspond where gaps at top level are empty in both
texts or in neither.
-/

namespace DdlDiagram

open Layout

variable {s : Nesting} {p q : Option Char} {t t' g : Text} {c : Char}

namespace Nesting

/-- A gap that is not cut goes to the piece behind it. -/
theorem pieces_gap_append (cut : Char → Bool) (hs : s.quote.all isQuote = true) (hg : Text.IsGap g)
    (hcut : ∀ c, isBlank c = true → (s.atTop c && cut c) = false) (t : Text) :
    pieces cut s (g ++ t) = Text.prepend g (pieces cut s t) := by
  induction g with
  | nil => rfl
  | cons c rest ih =>
      obtain ⟨hc, hrest⟩ := Text.isGap_cons.1 hg
      rw [List.cons_append, pieces_cons_of_not_cut (hcut c hc), after_of_isBlank hc hs, ih hrest]
      rfl

/-- A character in a quoted run makes no cut. -/
theorem not_cut_of_any_isQuote (h : s.quote.any isQuote = true) (cut : Char → Bool) (c : Char) :
    (s.atTop c && cut c) = false := by
  rw [not_atTop_of_any_isQuote h, Bool.false_and]

theorem not_comma_of_isBlank (s : Nesting) (hc : isBlank c = true) :
    (s.atTop c && c == ',') = false := by
  rw [beq_eq_false_iff_ne.2 (Text.ne_of_isBlank hc rfl), Bool.and_false]

theorem pieces_comma_gap_append (hs : s.quote.all isQuote = true) (hg : Text.IsGap g) (t : Text) :
    pieces (· == ',') s (g ++ t) = Text.prepend g (pieces (· == ',') s t) :=
  pieces_gap_append (· == ',') hs hg (fun _ hc => not_comma_of_isBlank s hc) t

theorem pieces_comma_of_isGap (hs : s.quote.all isQuote = true) (hg : Text.IsGap g) :
    pieces (· == ',') s g = [g] := by
  have hgap := pieces_comma_gap_append hs hg []
  rwa [List.append_nil, pieces, Text.prepend_head, List.append_nil] at hgap

/-- Where nothing is open behind a character that makes no cut, it is no comma. -/
theorem ne_comma_of_not_cut (hs : s.quote.all isQuote = true)
    (hcut : (s.atTop c && c == ',') = false) (hafter : s.after c = top) : c ≠ ',' := by
  rintro rfl
  have hplain : isQuote ',' = false ∧ ',' ≠ '(' ∧ ',' ≠ ')' := by decide
  rw [after_of_plain hplain hs] at hafter
  rw [(atTop_iff_eq_top hplain).2 hafter] at hcut
  exact absurd hcut Bool.noConfusion

theorem eq_top (hquote : s.quote = none) (hdepth : s.depth = 0) : s = top := by
  obtain ⟨q, d⟩ := s
  obtain rfl : q = none := hquote
  obtain rfl : d = 0 := hdepth
  rfl

end Nesting

namespace Respaced

/-- The pieces between commas. No character stands before a piece behind a comma. -/
theorem pieces_comma (h : Respaced bodyRule s p t t')
    (hq : ∀ b ∈ q, p = some b ∧ (s = .top → b ≠ ',')) :
    Text.CutAlike (Respaced lineRule s q) (List.Forall₂ (Respaced lineRule .top none))
      (Nesting.pieces (· == ',') s t) (Nesting.pieces (· == ',') s t') := by
  induction h generalizing q with
  | @gap s p g g' hquote hg hg' hend =>
      rw [Nesting.pieces_comma_of_isGap hquote hg, Nesting.pieces_comma_of_isGap hquote hg']
      exact .intro (.gap hquote hg hg' ⟨fun _ _ _ hd => (by cases hd), hend.2⟩) .nil
  | @quoted s p c t t' hquote _ ih =>
      have hcut := Nesting.not_cut_of_any_isQuote hquote (· == ',') c
      have hne := Nesting.ne_comma_of_not_cut (Nesting.all_isQuote_of_any hquote) hcut
      have hrest := ih (q := some c) (by rintro b ⟨⟩; exact ⟨rfl, hne⟩)
      rw [Nesting.pieces_cons_of_not_cut hcut, Nesting.pieces_cons_of_not_cut hcut]
      exact hrest.consHead c fun _ _ hfirst => .quoted hquote hfirst
  | @next s p g g' c t t' hquote hg hg' hblank hgap hrest ih =>
      have hall : s.quote.all isQuote = true := by simp [hquote]
      rw [Nesting.pieces_comma_gap_append hall hg, Nesting.pieces_comma_gap_append hall hg']
      cases hcut : s.atTop c && c == ',' with
      | true =>
          obtain ⟨htop, hcomma⟩ := (Bool.and_eq_true _ _).mp hcut
          obtain rfl := beq_iff_eq.1 hcomma
          have hrest := ih (q := none) (by simp)
          rw [Nesting.after_eq_top_of_atTop htop] at hrest
          rw [Nesting.pieces, Nesting.pieces, if_pos hcut, if_pos hcut,
            Nesting.after_eq_top_of_atTop htop, Text.prepend_head, Text.prepend_head,
            List.append_nil, List.append_nil]
          refine .intro (.gap hall hg hg' ⟨fun _ _ _ hd => (by cases hd), fun _ => ?_⟩)
            hrest.forall₂
          exact (Nesting.atTop_iff_eq_top (by decide)).1 htop
      | false =>
          have hne := Nesting.ne_comma_of_not_cut hall hcut
          have hrest := ih (q := some c) (by rintro b ⟨⟩; exact ⟨rfl, hne⟩)
          rw [Nesting.pieces_cons_of_not_cut hcut, Nesting.pieces_cons_of_not_cut hcut]
          refine hrest.prepend_consHead g g' c fun first first' hfirst => ?_
          refine .next hquote hg hg' hblank ⟨fun b hb d hd => ?_, by simp⟩ hfirst
          obtain ⟨rfl, hcomma⟩ := hq b hb
          have htop := fun hdepth => Nesting.eq_top hquote hdepth
          exact (hgap.1 b rfl d hd).resolve_left fun h => hcomma (htop h.2) h.1

theorem partsBetween_comma (h : Respaced bodyRule .top none t t') :
    List.Forall₂ (Respaced lineRule .top none) (t.partsBetween ',') (t'.partsBetween ',') := by
  rw [Text.partsBetween, Text.partsBetween]
  have hpieces := h.pieces_comma (q := none) (by simp)
  exact hpieces.forall₂

end Respaced

namespace Nesting

/-- Behind a gap at top level the words are those of the rest. -/
theorem pieces_isBlank_gap_append (hg : Text.IsGap g) (hne : g ≠ []) (t : Text) : ∃ others,
    pieces isBlank top (g ++ t) = [] :: others ∧ others.filter (!·.isEmpty) = t.words := by
  obtain ⟨c, rest, rfl⟩ := List.exists_cons_of_ne_nil hne
  obtain ⟨hc, hrest⟩ := Text.isGap_cons.1 hg
  have htop : (top.afterText []).atTop c = true := (atTop_iff_of_isBlank hc).2 rfl
  exact ⟨pieces isBlank top (rest ++ t), pieces_append_cons htop hc (rest ++ t),
    Text.words_gap_append hrest t⟩

theorem pieces_isBlank_of_isGap (hg : Text.IsGap g) : ∃ others,
    pieces isBlank top g = [] :: others ∧ others.filter (!·.isEmpty) = [] := by
  by_cases hne : g = []
  · exact ⟨[], by rw [hne]; rfl, rfl⟩
  · have hgap := pieces_isBlank_gap_append hg hne []
    rw [List.append_nil] at hgap
    exact hgap

/-- A gap where something is open goes to the piece behind it. -/
theorem pieces_isBlank_gap_append_of_ne_top (hs : s.quote.all isQuote = true) (hopen : s ≠ top)
    (hg : Text.IsGap g) (t : Text) :
    pieces isBlank s (g ++ t) = Text.prepend g (pieces isBlank s t) := by
  apply pieces_gap_append isBlank hs hg
  intro c hc
  rw [hc, Bool.and_true, ← Bool.not_eq_true, atTop_iff_of_isBlank hc]
  exact hopen

theorem pieces_isBlank_cons (hc : isBlank c = false) (s : Nesting) (t : Text) :
    pieces isBlank s (c :: t) = Text.consHead c (pieces isBlank (s.after c) t) :=
  pieces_cons_of_not_cut (by rw [hc, Bool.and_false]) t

end Nesting

namespace Respaced

/-- Nothing stands in front of the first word, nor behind the last one. -/
theorem wordRule_nil : Respaced wordRule .top p [] [] := by
  refine .gap rfl Text.isGap_nil Text.isGap_nil ⟨⟨fun _ _ _ hd => (nomatch hd), ?_⟩, ?_⟩
  · exact fun _ => rfl
  · exact fun _ => ⟨rfl, rfl⟩

/-- A word does not start with a blank. -/
theorem startsBlank_of_wordRule (h : Respaced wordRule .top p t t') :
    t.startsBlank = false ∧ t'.startsBlank = false := by
  cases h with
  | gap _ _ _ hend =>
      obtain ⟨rfl, rfl⟩ := hend.2 rfl
      exact ⟨rfl, rfl⟩
  | quoted hquote => exact absurd hquote Bool.noConfusion
  | next _ _ _ hc hgap =>
      obtain ⟨rfl, rfl⟩ := hgap.2 rfl
      exact ⟨hc, hc⟩

theorem isEmpty_of_wordRule (h : Respaced wordRule .top p t t') : t'.isEmpty = t.isEmpty := by
  obtain ⟨hblank, hblank'⟩ := h.startsBlank_of_wordRule
  obtain ⟨rfl, rfl, -⟩ | ⟨c, u, u', rfl, rfl, -⟩ := h.head_cases hblank hblank'
  · rfl
  · rfl

/-- The pieces between blanks, of which the empty ones are no words. -/
theorem pieces_isBlank (h : Respaced declarationRule s p t t')
    (hp : p = none → t.startsBlank = false ∧ t'.startsBlank = false) :
    Text.CutAlike (Respaced wordRule s p) (Text.FilledAlike (Respaced wordRule .top none))
      (Nesting.pieces isBlank s t) (Nesting.pieces isBlank s t') := by
  induction h with
  | @gap s p g g' hquote hg hg' hend =>
      obtain rfl : s = .top := hend.1.2 rfl
      obtain ⟨others, heq, hothers⟩ := Nesting.pieces_isBlank_of_isGap hg
      obtain ⟨others', heq', hothers'⟩ := Nesting.pieces_isBlank_of_isGap hg'
      rw [heq, heq']
      refine .intro wordRule_nil ?_
      rw [Text.FilledAlike, hothers, hothers']
      exact .nil
  | @quoted s p c t t' hquote _ ih =>
      have hcut := Nesting.not_cut_of_any_isQuote hquote isBlank c
      have hpieces := ih fun hnone => absurd hnone (Option.some_ne_none c)
      rw [Nesting.pieces_cons_of_not_cut hcut, Nesting.pieces_cons_of_not_cut hcut]
      exact hpieces.consHead c fun _ _ hfirst => .quoted hquote hfirst
  | @next s p g g' c t t' hquote hg hg' hblank hgap hrest ih =>
      have hpieces := ih fun hnone => absurd hnone (Option.some_ne_none c)
      have hcons := Nesting.pieces_isBlank_cons hblank s
      by_cases htop : s = .top
      · subst htop
        have hnil : g = [] ↔ g' = [] := by
          by_cases hp0 : p = none
          · obtain ⟨ht, ht'⟩ := hp hp0
            simp [hg.eq_nil_of_startsBlank_append ht, hg'.eq_nil_of_startsBlank_append ht']
          · exact hgap.2 rfl hp0 fun hnone => absurd hnone (Option.some_ne_none c)
        by_cases hg0 : g = []
        · obtain rfl := hg0
          obtain rfl := hnil.1 rfl
          rw [List.nil_append, List.nil_append, hcons, hcons]
          exact hpieces.consHead c fun _ _ hfirst =>
            .next rfl hg hg' hblank ⟨hgap.1, fun _ => ⟨rfl, rfl⟩⟩ hfirst
        · have hg0' : g' ≠ [] := fun h0 => hg0 (hnil.2 h0)
          obtain ⟨more, hmore, hfilter⟩ := Nesting.pieces_isBlank_gap_append hg hg0 (c :: t)
          obtain ⟨more', hmore', hfilter'⟩ := Nesting.pieces_isBlank_gap_append hg' hg0' (c :: t')
          have hwords := hpieces.consHead (Q := Respaced wordRule .top none) c fun _ _ hfirst =>
            .next rfl Text.isGap_nil Text.isGap_nil hblank
              ⟨free_lineRule hgap.1 [] [], fun _ => ⟨rfl, rfl⟩⟩ hfirst
          rw [hmore, hmore']
          refine .intro wordRule_nil ?_
          rw [Text.FilledAlike, hfilter, hfilter', Text.words, Text.words, hcons, hcons]
          exact hwords.filledAlike fun _ _ hword => hword.isEmpty_of_wordRule
      · have hgap_append := fun {g : Text} (hg : Text.IsGap g) =>
          Nesting.pieces_isBlank_gap_append_of_ne_top (by simp [hquote]) htop hg
        rw [hgap_append hg, hgap_append hg', hcons, hcons]
        refine hpieces.prepend_consHead g g' c fun first first' hfirst => ?_
        refine .next hquote hg hg' hblank ⟨hgap.1, fun hdepth => ?_⟩ hfirst
        exact absurd (Nesting.eq_top hquote hdepth) htop

/-- The words of a declaration whose words stay apart and whole. -/
theorem words (h : Respaced declarationRule .top none t t') (ht : t.startsBlank = false)
    (ht' : t'.startsBlank = false) :
    List.Forall₂ (Respaced wordRule .top none) t.words t'.words := by
  have hpieces := h.pieces_isBlank fun _ => ⟨ht, ht'⟩
  exact hpieces.filledAlike fun _ _ hword => hword.isEmpty_of_wordRule

end Respaced
end DdlDiagram
