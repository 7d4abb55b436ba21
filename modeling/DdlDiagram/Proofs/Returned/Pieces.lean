import DdlDiagram.Proofs.Declaration.Reader
import DdlDiagram.Proofs.Identifier.Spelling
import DdlDiagram.Proofs.Respaced.Pieces
import DdlDiagram.Proofs.Returned.Basic

/-!
# Groups, words and names with carriage returns

A return opens and closes nothing, and stands where its feed does: at top level both characters end
a word, elsewhere neither does. So texts with returns fall into corresponding groups, pieces and
words. A return of its own would make an empty word between itself and its feed; empty words do not
count.
-/

namespace DdlDiagram

variable {s : Nesting} {t t' : Text} {ts ts' : List Text}

namespace Returned

theorem forall₂_withoutReturns (h : List.Forall₂ Returned ts ts') :
    ts'.map Text.withoutReturns = ts := by
  induction h with
  | nil => rfl
  | cons hword _ ih => rw [List.map_cons, hword.withoutReturns, ih]

/-- The texts that are not empty. -/
theorem forall₂_filter (h : List.Forall₂ Returned ts ts') :
    List.Forall₂ Returned (ts.filter (!·.isEmpty)) (ts'.filter (!·.isEmpty)) := by
  induction h with
  | nil => exact .nil
  | cons hword _ ih =>
      rw [List.filter_cons, List.filter_cons, hword.isEmpty_eq]
      split
      · exact .cons hword ih
      · exact ih

theorem forall₂_consHead {c : Char} (hc : c ≠ '\r') (h : List.Forall₂ Returned ts ts') :
    List.Forall₂ Returned (Text.consHead c ts) (Text.consHead c ts') := by
  cases h with
  | nil => exact .cons (.cons hc .nil) .nil
  | cons hword hothers => exact .cons (.cons hc hword) hothers

theorem forall₂_consHead_feed (h : List.Forall₂ Returned ts ts') :
    List.Forall₂ Returned (Text.consHead '\n' ts)
      (Text.consHead '\r' (Text.consHead '\n' ts')) := by
  cases h with
  | nil => exact .cons (.feed .nil) .nil
  | cons hword hothers => exact .cons (.feed hword) hothers

/-- A scan of a group ends at the same point in both texts. -/
theorem upToClose (h : Returned t t') (hs : s.quote.all isQuote = true) :
    Option.Rel Returned (s.upToClose t) (s.upToClose t') := by
  induction h generalizing s with
  | nil => exact .none
  | @feed t t' _ ih =>
      have hfeed := Nesting.upToClose_gap_append hs Text.isGap_feed t
      have hreturn := Nesting.upToClose_gap_append hs Text.isGap_return_feed t'
      rw [List.cons_append, List.nil_append] at hfeed
      rw [List.cons_append, List.cons_append, List.nil_append] at hreturn
      rw [hfeed, hreturn]
      exact (ih hs).map fun _ _ hbody => .feed hbody
  | @cons c t t' hc _ ih =>
      rw [Nesting.upToClose, Nesting.upToClose]
      split
      · exact .some .nil
      · exact (ih (Nesting.all_isQuote_after hs)).map fun _ _ hbody => .cons hc hbody

theorem groupBody? (h : Returned t t') : Option.Rel Returned t.groupBody? t'.groupBody? := by
  cases h with
  | nil => exact .none
  | feed => exact .none
  | cons _ hrest =>
      rw [Text.groupBody?, Text.groupBody?]
      split
      · exact hrest.upToClose rfl
      · exact .none

theorem splitGroup (h : Returned t t') : Returned t.beforeGroup t'.beforeGroup ∧
    Option.Rel Returned t.group? t'.group? := by
  obtain ⟨hfront, hrest⟩ := h.run (p := (· != '(')) rfl
  have hbody := hrest.groupBody?
  unfold Text.beforeGroup Text.group? Text.splitGroup
  generalize Text.groupBody? (t.dropWhile (· != '(')) = body,
    Text.groupBody? (t'.dropWhile (· != '(')) = body' at hbody
  cases hbody with
  | none => exact ⟨h, .none⟩
  | some hgroup => exact ⟨hfront.trimEnd, .some hgroup⟩

theorem beforeGroup (h : Returned t t') : Returned t.beforeGroup t'.beforeGroup := h.splitGroup.1

theorem group? (h : Returned t t') : Option.Rel Returned t.group? t'.group? := h.splitGroup.2

theorem pieces_comma (h : Returned t t') (hs : s.quote.all isQuote = true) :
    List.Forall₂ Returned (s.pieces (· == ',') t) (s.pieces (· == ',') t') := by
  induction h generalizing s with
  | nil => exact .cons .nil .nil
  | @feed t t' _ ih =>
      have hfeed := Nesting.pieces_comma_gap_append hs Text.isGap_feed t
      have hreturn := Nesting.pieces_comma_gap_append hs Text.isGap_return_feed t'
      rw [List.cons_append, List.nil_append] at hfeed
      rw [List.cons_append, List.cons_append, List.nil_append] at hreturn
      rw [hfeed, hreturn]
      exact forall₂_consHead_feed (ih hs)
  | @cons c t t' hc _ ih =>
      have hrest := ih (Nesting.all_isQuote_after (c := c) hs)
      rw [Nesting.pieces, Nesting.pieces]
      split
      · exact .cons .nil hrest
      · exact forall₂_consHead hc hrest

theorem partsBetween (h : Returned t t') :
    List.Forall₂ Returned (t.partsBetween ',') (t'.partsBetween ',') := h.pieces_comma rfl

/-- The pieces between blanks. The first ones may both be empty. -/
theorem pieces_isBlank (h : Returned t t') (hs : s.quote.all isQuote = true) :
    Text.CutAlike Returned (Text.FilledAlike Returned) (s.pieces isBlank t)
      (s.pieces isBlank t') := by
  have hempty : ∀ u u' : Text, Returned u u' → u'.isEmpty = u.isEmpty :=
    fun _ _ hword => hword.isEmpty_eq
  induction h generalizing s with
  | nil => exact .intro .nil .nil
  | @feed t t' _ ih =>
      have hpieces := ih hs
      by_cases htop : s = .top
      · -- Between a return and its feed there is an empty piece.
        subst htop
        obtain ⟨more, hmore, hfilter⟩ :=
          Nesting.pieces_isBlank_gap_append Text.isGap_feed (List.cons_ne_nil _ _) t
        obtain ⟨more', hmore', hfilter'⟩ :=
          Nesting.pieces_isBlank_gap_append Text.isGap_return_feed (List.cons_ne_nil _ _) t'
        rw [List.cons_append, List.nil_append] at hmore
        rw [List.cons_append, List.cons_append, List.nil_append] at hmore'
        rw [hmore, hmore']
        refine .intro .nil ?_
        rw [Text.FilledAlike, hfilter, hfilter']
        exact hpieces.filledAlike hempty
      · have hfeed :=
          Nesting.pieces_isBlank_gap_append_of_ne_top hs htop Text.isGap_feed t
        have hreturn :=
          Nesting.pieces_isBlank_gap_append_of_ne_top hs htop Text.isGap_return_feed t'
        rw [List.cons_append, List.nil_append] at hfeed
        rw [List.cons_append, List.cons_append, List.nil_append] at hreturn
        rw [hfeed, hreturn]
        exact hpieces.prepend_consHead [] ['\r'] '\n' fun _ _ hfirst => .feed hfirst
  | @cons c t t' hc _ ih =>
      have hpieces := ih (Nesting.all_isQuote_after (c := c) hs)
      rw [Nesting.pieces, Nesting.pieces]
      split
      · exact .intro .nil (hpieces.filledAlike hempty)
      · exact hpieces.consHead c fun _ _ hfirst => .cons hc hfirst

theorem words (h : Returned t t') : List.Forall₂ Returned t.words t'.words :=
  (h.pieces_isBlank rfl).filledAlike fun _ _ hword => hword.isEmpty_eq

theorem unquote (h : Returned t t') : Returned t.unquote t'.unquote := by
  have htrim := h.trim
  rw [Text.unquote, Text.unquote]
  generalize t.trim = u, t'.trim = u' at htrim
  cases htrim with
  | nil => exact .nil
  | feed hrest => exact .feed hrest
  | @cons first rest rest' hfirst hrest =>
      have hwhole : Returned (first :: rest) (first :: rest') := .cons hfirst hrest
      cases hclose : closingQuote? first with
      | none => simpa only [hclose] using hwhole
      | some close =>
          simp only [hclose, hrest.getLast?_eq]
          cases hlast : rest.getLast? with
          | none => exact hwhole
          | some last =>
              simp only
              split
              · rename_i heq
                obtain ⟨front, rfl⟩ := List.getLast?_eq_some_iff.1 hlast
                have hfeed : last ≠ '\n' := by
                  rintro rfl
                  subst heq
                  exact absurd (isBlank_of_closingQuote? hclose).2 (by decide)
                obtain ⟨front', rfl, hname⟩ := hrest.of_concat hfeed
                rwa [List.dropLast_concat, List.dropLast_concat]
              · exact hwhole

theorem identifiers (h : Returned t t') :
    List.Forall₂ Returned t.identifiers t'.identifiers := by
  rw [Text.identifiers, Text.identifiers]
  apply forall₂_filter
  rw [List.forall₂_map_left_iff, List.forall₂_map_right_iff]
  exact h.partsBetween.imp fun _ _ hpart => hpart.trim.beforeGroup.unquote

theorem tableName (h : Returned t t') :
    Returned (Declaration.tableName t) (Declaration.tableName t') := by
  have hpoint : ('.' : Char) ≠ '\r' := by decide
  induction hn : t.length using Nat.strong_induction_on generalizing t t' with
  | _ n ih =>
      by_cases hmem : '.' ∈ t
      · obtain ⟨s, u, rfl⟩ := List.append_of_mem hmem
        obtain ⟨s', w, rfl, -, hw⟩ := h.of_append
        cases hw with
        | cons _ hu =>
            have hlength : u.length < n := by
              rw [← hn, List.length_append, List.length_cons]
              omega
            rw [Declaration.tableName_append_cons, Declaration.tableName_append_cons]
            exact ih _ hlength hu rfl
      · have hmem' := (h.mem_iff hpoint).not.1 hmem
        rw [Declaration.tableName_of_not_mem hmem, Declaration.tableName_of_not_mem hmem']
        exact h.unquote

end Returned
end DdlDiagram
