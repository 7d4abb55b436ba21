import DdlDiagram.Proofs.Text.Padded
import DdlDiagram.Proofs.Respaced.TableBody

/-!
# Chunks with blanks behind them

What a chunk declares stands in front of the blanks it ends with. Each part of the reading skips
them or leaves them for the next part, and nothing looks at what is left behind the body.
-/

namespace DdlDiagram

open Text

variable {t t' r : Text}

/-- The text behind a keyword keeps the padding. -/
theorem Keyword.strip?_padded (k : Keyword) (h : Padded t t') :
    Option.Rel Padded (k.strip? t) (k.strip? t') := by
  obtain ⟨hword, hrest⟩ :=
    h.run (p := isIdentifierChar) fun _ hc => isIdentifierChar_eq_false_of_isBlank hc
  rw [Keyword.strip?_eq, Keyword.strip?_eq, hword]
  split
  · exact .some hrest
  · exact .none

namespace TableBody

/-- The same name, with rests of which the second is padded. -/
def SameNamePadded (x y : Text × Text) : Prop := y.1 = x.1 ∧ Padded x.2 y.2

theorem skip?_padded (k : Keyword) (h : Padded t t') :
    Option.Rel Padded (skip? k t) (skip? k t') :=
  (Keyword.strip?_padded k h).map fun _ _ hrests => hrests.trimStart

theorem behindIfNotExists_padded (h : Padded t t') :
    Padded (behindIfNotExists t) (behindIfNotExists t') := by
  have hwords : Option.Rel Padded
      ((skip? .ifWord t).bind fun u => (skip? .notWord u).bind (skip? .existsWord))
      ((skip? .ifWord t').bind fun u => (skip? .notWord u).bind (skip? .existsWord)) := by
    apply (skip?_padded .ifWord h).bind
    intro u u' hu
    apply (skip?_padded .notWord hu).bind
    intro v v' hv
    exact skip?_padded .existsWord hv
  exact hwords.getD h

theorem segment?_padded (h : Padded t t') :
    Option.Rel SameNamePadded (segment? t) (segment? t') := by
  obtain ⟨g, hg, rfl⟩ := h
  cases t with
  | nil =>
      have hnone : segment? g = none := by
        cases g with
        | nil => rfl
        | cons c rest =>
            have hc := (isGap_cons.1 hg).1
            have hopen : closingQuote? c = none := by
              by_contra hsome
              obtain ⟨close, hclose⟩ := Option.ne_none_iff_exists'.1 hsome
              rw [(isBlank_of_closingQuote? hclose).1] at hc
              exact Bool.false_ne_true hc
            rw [segment?, rawSegment?, hopen]
            simp [isIdentifierChar_eq_false_of_isBlank hc]
      rw [List.nil_append, hnone]
      exact .none
  | cons c rest =>
      have hraw : Option.Rel SameNamePadded (rawSegment? (c :: rest))
          (rawSegment? (c :: rest ++ g)) := by
        rw [List.cons_append, rawSegment?, rawSegment?]
        cases hclose : closingQuote? c with
        | some close => exact (hg.padded rest).splitOnce (isBlank_of_closingQuote? hclose).2
        | none =>
            exact .some ((hg.padded (c :: rest)).run
              fun _ hd => isIdentifierChar_eq_false_of_isBlank hd)
      exact hraw.filter fun x y hxy => by rw [hxy.1]

/-- The name of a table is read in front of the padding, segment by segment. -/
theorem name?_padded (h : Padded t t') : Option.Rel SameNamePadded (name? t) (name? t') := by
  fun_induction name? t generalizing t' with
  | case1 t hx =>
      have hnone := (hx ▸ segment?_padded h).eq_none
      rw [name?_of_segment?_eq_none hnone]
      exact .none
  | case2 t first rest hx next hpoint ih =>
      obtain ⟨x', hx', hsame⟩ := (hx ▸ segment?_padded h).exists_of_some
      obtain ⟨g, hg, htrim⟩ := hsame.2.trimStart
      rw [hpoint, List.cons_append] at htrim
      rw [name?_of_point hx' htrim]
      exact ih (hg.padded next).trimStart
  | case3 t last rest hx hlast =>
      obtain ⟨x', hx', hsame⟩ := (hx ▸ segment?_padded h).exists_of_some
      obtain ⟨g, hg, htrim⟩ := hsame.2.trimStart
      have hlast' : ∀ r, x'.2.trimStart ≠ '.' :: r := by
        intro r hr
        rw [hr] at htrim
        cases hrest : rest.trimStart with
        | nil =>
            -- Behind the last segment there is nothing but the padding.
            rw [hrest, List.nil_append] at htrim
            exact absurd (hg '.' (htrim ▸ List.mem_cons_self)) (by decide)
        | cons c others =>
            rw [hrest, List.cons_append, List.cons.injEq] at htrim
            exact hlast others (by rw [hrest, htrim.1])
      rw [name?_of_not_point hx' hlast']
      exact .some hsame

/-- A chunk declares the same with a gap behind it. -/
theorem ofChunk_padded (h : Padded t t') : ofChunk t' = ofChunk t := by
  have hname := name?_padded (behindIfNotExists_padded h.trimStart)
  rw [ofChunk, ofChunk]
  generalize name? (behindIfNotExists t.trimStart) = x,
    name? (behindIfNotExists t'.trimStart) = x' at hname
  cases hname with
  | none => rfl
  | @some x x' hsame =>
      obtain ⟨hgroup, hnil⟩ := hsame.2.dropWhile (p := (· != '(')) fun c hc =>
        bne_iff_ne.2 (ne_of_isBlank hc rfl)
      have hbody := hgroup.groupBody?
      simp only [hsame.1]
      cases hd : x.2.dropWhile (· != '(') with
      | nil => rw [hnil.2 hd]
      | cons c group =>
          cases hd' : x'.2.dropWhile (· != '(') with
          | nil => exact absurd (hnil.1 hd') (by simp [hd])
          | cons c' group' =>
              rw [hd, hd'] at hbody
              simp only [hbody]

end TableBody
end DdlDiagram
