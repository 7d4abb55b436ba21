import DdlDiagram.Proofs.Respaced.TableBody
import DdlDiagram.Proofs.Returned.Pieces

/-!
# Table bodies with carriage returns

Texts with returns have their boundaries at the same words, so their chunks correspond. Two
corresponding chunks have the same fault, or both declare a table, with corresponding names and
declarations.
-/

namespace DdlDiagram

def ReturnedPair (x x' : Text × Text) : Prop := Returned x.1 x'.1 ∧ Returned x.2 x'.2

structure ReturnedBody (body body' : TableBody) : Prop where
  name : Returned body.name body'.name
  declarations : List.Forall₂ Returned body.declarations body'.declarations

inductive ReturnedRead : Except TableBody.Fault TableBody → Except TableBody.Fault TableBody → Prop
  | error (fault : TableBody.Fault) : ReturnedRead (.error fault) (.error fault)
  | ok {body body' : TableBody} : ReturnedBody body body' → ReturnedRead (.ok body) (.ok body')

namespace Returned

variable {t t' : Text} {quote : Quote} {previous previous' : Option Char}

theorem skip? (k : Keyword) (h : Returned t t') :
    Option.Rel Returned (TableBody.skip? k t) (TableBody.skip? k t') :=
  (h.strip? k).map fun _ _ hrest => hrest.trimStart

theorem behindHeader? (h : Returned t t') :
    Option.Rel Returned (Statement.behindHeader? t) (Statement.behindHeader? t') := by
  rw [Statement.behindHeader?_eq, Statement.behindHeader?_eq]
  apply (h.skip? .create).bind
  intro u u' hu
  exact (((hu.skip? .temporary).orElse (hu.skip? .temp)).getD hu).strip? .table

theorem segments (h : Returned t t') (hquote : quote.all isQuote = true)
    (hprevious : previous'.any isIdentifierChar = previous.any isIdentifierChar) :
    List.Forall₂ Returned (Statement.segments quote previous t)
      (Statement.segments quote previous' t') := by
  induction h generalizing quote previous previous' with
  | nil => exact .cons .nil .nil
  | @feed t t' _ ih =>
      obtain ⟨last, hfeed, hlast⟩ :=
        Statement.segments_gap_append hquote Text.isGap_feed previous t
      obtain ⟨last', hreturn, hlast'⟩ :=
        Statement.segments_gap_append hquote Text.isGap_return_feed previous' t'
      rw [List.cons_append, List.nil_append] at hfeed
      rw [List.cons_append, List.cons_append, List.nil_append] at hreturn
      rw [hfeed, hreturn]
      exact forall₂_consHead_feed (ih hquote (hlast'.trans hlast.symm))
  | @cons c t t' hc hrest ih =>
      have hafter : (quote.after c).all isQuote = true := by
        rw [← Nesting.quote_after ⟨quote, 0⟩]
        exact Nesting.all_isQuote_after hquote
      have hboundary : Statement.isBoundary quote previous' (c :: t') =
          Statement.isBoundary quote previous (c :: t) := by
        rw [Statement.isBoundary, Statement.isBoundary, hprevious,
          (cons hc hrest).behindHeader?.isSome_eq]
      have hsegments : List.Forall₂ Returned (Statement.segments (quote.after c) (some c) t)
          (Statement.segments (quote.after c) (some c) t') := ih hafter rfl
      have hothers := forall₂_consHead hc hsegments
      rw [Statement.segments, Statement.segments, hboundary]
      split
      · exact .cons .nil hothers
      · exact hothers

theorem chunks (h : Returned t t') :
    List.Forall₂ Returned (Statement.chunks t) (Statement.chunks t') := by
  have hsegments : List.Forall₂ Returned (Statement.segments none none t)
      (Statement.segments none none t') := h.segments rfl rfl
  rw [Statement.chunks_eq, Statement.chunks_eq]
  refine List.rel_filterMap (R := Returned) ?_ ?_
  · intro segment segment' hsegment
    exact hsegment.behindHeader?
  · generalize Statement.segments none none t = ts,
      Statement.segments none none t' = ts' at hsegments
    cases hsegments with
    | nil => exact .nil
    | cons _ hothers => exact hothers

theorem behindIfNotExists (h : Returned t t') :
    Returned (TableBody.behindIfNotExists t) (TableBody.behindIfNotExists t') := by
  have hwords : Option.Rel Returned
      ((TableBody.skip? .ifWord t).bind fun u =>
        (TableBody.skip? .notWord u).bind (TableBody.skip? .existsWord))
      ((TableBody.skip? .ifWord t').bind fun u =>
        (TableBody.skip? .notWord u).bind (TableBody.skip? .existsWord)) := by
    apply (h.skip? .ifWord).bind
    intro u u' hu
    apply (hu.skip? .notWord).bind
    intro v v' hv
    exact hv.skip? .existsWord
  exact hwords.getD h

theorem rawSegment? (h : Returned t t') :
    Option.Rel ReturnedPair (TableBody.rawSegment? t) (TableBody.rawSegment? t') := by
  cases h with
  | nil => exact .none
  | feed hrest => exact .some ((feed hrest).run (p := isIdentifierChar) rfl)
  | @cons c t t' hc hrest =>
      rw [TableBody.rawSegment?, TableBody.rawSegment?]
      cases hclose : closingQuote? c with
      | some close =>
          have hblank := (isBlank_of_closingQuote? hclose).2
          exact hrest.splitOnce (Text.ne_of_isBlank hblank rfl) (Text.ne_of_isBlank hblank rfl)
      | none => exact .some ((cons hc hrest).run (p := isIdentifierChar) rfl)

theorem segment? (h : Returned t t') :
    Option.Rel ReturnedPair (TableBody.segment? t) (TableBody.segment? t') :=
  h.rawSegment?.filter fun _ _ hx => by rw [hx.1.isEmpty_eq]

theorem name? (h : Returned t t') :
    Option.Rel ReturnedPair (TableBody.name? t) (TableBody.name? t') := by
  fun_induction TableBody.name? t generalizing t' with
  | case1 t hx =>
      have hnone := (hx ▸ h.segment?).eq_none
      rw [TableBody.name?_of_segment?_eq_none hnone]
      exact .none
  | case2 t first rest hx next hpoint ih =>
      obtain ⟨x', hx', hsame⟩ := (hx ▸ h.segment?).exists_of_some
      have htrim := hsame.2.trimStart
      rw [hpoint] at htrim
      generalize hpoint' : x'.2.trimStart = r' at htrim
      cases htrim with
      | cons _ hnext =>
          rw [TableBody.name?_of_point hx' hpoint']
          exact ih hnext.trimStart
  | case3 t last rest hx hlast =>
      obtain ⟨x', hx', hsame⟩ := (hx ▸ h.segment?).exists_of_some
      have hlast' : ∀ next', x'.2.trimStart ≠ '.' :: next' := by
        intro next' hpoint'
        have htrim := hsame.2.trimStart
        rw [hpoint'] at htrim
        generalize hpoint : Text.trimStart rest = r at htrim
        cases htrim with
        | cons => exact hlast _ hpoint
      rw [TableBody.name?_of_not_point hx' hlast']
      exact .some hsame

theorem declarationsOf (h : Returned t t') :
    List.Forall₂ Returned (TableBody.declarationsOf t) (TableBody.declarationsOf t') := by
  apply forall₂_filter
  rw [List.forall₂_map_left_iff, List.forall₂_map_right_iff]
  exact h.partsBetween.imp fun _ _ hpart => hpart.trim

theorem ofChunk (h : Returned t t') :
    ReturnedRead (TableBody.ofChunk t) (TableBody.ofChunk t') := by
  have hname := h.trimStart.behindIfNotExists.name?
  rw [TableBody.ofChunk, TableBody.ofChunk]
  generalize TableBody.name? (TableBody.behindIfNotExists t.trimStart) = x,
    TableBody.name? (TableBody.behindIfNotExists t'.trimStart) = x' at hname
  cases hname with
  | none => exact .error .noName
  | @some x x' hsame =>
      have hgroup := (hsame.2.run (p := (· != '(')) rfl).2
      generalize hg : x.2.dropWhile (· != '(') = group,
        hg' : x'.2.dropWhile (· != '(') = group' at hgroup
      have hbody := hgroup.groupBody?
      generalize hb : Text.groupBody? group = body, hb' : Text.groupBody? group' = body' at hbody
      cases hgroup with
      | nil =>
          simp only [hg, hg']
          exact .error .noBody
      | feed | cons =>
          simp only [hg, hg', hb, hb']
          cases hbody with
          | none => exact .error .unclosedBody
          | some hlines => exact .ok ⟨hsame.1, hlines.declarationsOf⟩

end Returned
end DdlDiagram
