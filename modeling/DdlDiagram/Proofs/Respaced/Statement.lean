import DdlDiagram.Proofs.Respaced.Scans
import DdlDiagram.Proofs.Statement.Search
import Mathlib.Data.List.Forall2

/-!
# Chunks of respaced texts

The boundaries of two respaced texts stand at the same words, so their chunks correspond. A
boundary is a row of bare words, and the rule of a text keeps these apart and whole.
-/

namespace DdlDiagram

open Layout

variable {s : Nesting} {p : Option Char} {t t' r r' : Text} {c : Char}

namespace Respaced

/-- Respaced texts start with the same keywords. -/
theorem strip? (k : Keyword) (h : Respaced textRule s p t t') (hp : KeepsBare p t t') :
    Option.Rel (RespacedRests textRule s t) (k.strip? t) (k.strip? t') := by
  obtain ⟨hword, hrest⟩ := h.bareWord hp
  rw [Keyword.strip?_eq, Keyword.strip?_eq, hword]
  split
  · exact .some hrest
  · exact .none

end Respaced

structure TrimmedRests (s : Nesting) (t r r' : Text) : Prop where
  rests : RespacedRests textRule s t r r'
  startsBlank : r.startsBlank = false
  startsBlank' : r'.startsBlank = false

namespace TrimmedRests

theorem of_rests (h : RespacedRests textRule s t r r') :
    TrimmedRests s t r.trimStart r'.trimStart where
  rests := h.trimStart free_textRule
  startsBlank := Text.startsBlank_trimStart r
  startsBlank' := Text.startsBlank_trimStart r'

/-- The rests start with the same keywords. -/
theorem strip? (k : Keyword) (h : TrimmedRests s t r r') :
    Option.Rel (RespacedRests textRule s t) (k.strip? r) (k.strip? r') := by
  obtain ⟨⟨u, q, ht, hu, hr⟩, hblank, hblank'⟩ := h
  exact (hr.strip? k (.inl ⟨hblank, hblank'⟩)).mono fun _ _ hrests => .trans ht hu hrests

theorem skip? (k : Keyword) (h : TrimmedRests s t r r') :
    Option.Rel (TrimmedRests s t) (TableBody.skip? k r) (TableBody.skip? k r') :=
  (h.strip? k).map fun _ _ hrests => .of_rests hrests

end TrimmedRests

namespace Statement

/-- Behind a word there is another one only if blanks separate them, so the blanks need no
check. -/
theorem skipBlanks?_bind {α : Type} {f : Text → Option α} (ht : t.startsIdentifier = false)
    (hf : ∀ u, Text.startsIdentifier u = false → f u = none) :
    (skipBlanks? t).bind f = f t.trimStart := by
  cases hblank : t.startsBlank with
  | true => simp [skipBlanks?, hblank]
  | false =>
      rw [Text.trimStart_of_startsBlank_eq_false hblank, hf t ht]
      simp [skipBlanks?, hblank]

/-- The words of a header, with the blanks behind them, one after the other. -/
theorem behindHeader?_eq (t : Text) : behindHeader? t =
    (TableBody.skip? .create t).bind fun u => Keyword.table.strip?
      ((TableBody.skip? .temporary u <|> TableBody.skip? .temp u).getD u) := by
  have hbehind : ∀ {k : Keyword} {u v : Text}, k.strip? u = some v →
      v.startsIdentifier = false := by
    intro k u v h
    obtain ⟨-, -, -, hv⟩ := Keyword.strip?_eq_some_iff.1 h
    exact hv
  have htable : ∀ u, Text.startsIdentifier u = false → Keyword.table.strip? u = none :=
    fun u => Keyword.strip?_of_startsIdentifier .table
  cases hcreate : Keyword.create.strip? t with
  | none => simp [behindHeader?, TableBody.skip?, hcreate]
  | some r =>
      have hheader : behindHeader? t = (skipBlanks? r).bind fun u =>
          (Keyword.temporary.strip? u <|> Keyword.temp.strip? u).elim (Keyword.table.strip? u)
            fun rest => (skipBlanks? rest).bind Keyword.table.strip? := by
        unfold behindHeader?
        rw [hcreate]
        refine congrArg (skipBlanks? r).bind (funext fun u => ?_)
        cases Keyword.temporary.strip? u <|> Keyword.temp.strip? u <;> rfl
      rw [hheader, skipBlanks?_bind (hbehind hcreate)]
      · simp only [TableBody.skip?, hcreate, Option.map_some, Option.bind_some]
        cases htemporary : Keyword.temporary.strip? r.trimStart with
        | some v => exact skipBlanks?_bind (hbehind htemporary) htable
        | none =>
            cases htemp : Keyword.temp.strip? r.trimStart with
            | some v => exact skipBlanks?_bind (hbehind htemp) htable
            | none => rfl
      · intro u hu
        simp [Keyword.strip?_of_startsIdentifier _ hu]

end Statement

/-- The headers that two rests start with end at two rests. -/
theorem TrimmedRests.behindHeader? (h : TrimmedRests s t r r') :
    Option.Rel (RespacedRests textRule s t) (Statement.behindHeader? r)
      (Statement.behindHeader? r') := by
  rw [Statement.behindHeader?_eq, Statement.behindHeader?_eq]
  apply (h.skip? .create).bind
  intro u u' hrests
  have hbehind := ((hrests.skip? .temporary).orElse (hrests.skip? .temp)).getD hrests
  exact hbehind.strip? .table

namespace Statement

/-- A gap holds no boundary. Behind it, unless it is empty, a word starts anew. -/
theorem segments_gap_append {g : Text} {quote : Quote} (hquote : quote.all isQuote = true)
    (hg : Text.IsGap g) (previous : Option Char) (t : Text) : ∃ last,
      segments quote previous (g ++ t) = Text.prepend g (segments quote last t) ∧
      last.any isIdentifierChar = (g.isEmpty && previous.any isIdentifierChar) := by
  induction g generalizing previous with
  | nil => exact ⟨previous, rfl, rfl⟩
  | cons c rest ih =>
      obtain ⟨hc, hrest⟩ := Text.isGap_cons.1 hg
      have hbare := isIdentifierChar_eq_false_of_isBlank hc
      have hstart : Text.startsIdentifier (c :: (rest ++ t)) = false := hbare
      have hafter : quote.after c = quote := by
        have hs := Nesting.after_of_isBlank (s := ⟨quote, 0⟩) hc hquote
        rw [← Nesting.quote_after ⟨quote, 0⟩, hs]
      obtain ⟨last, hsegments, hlast⟩ := ih hrest (some c)
      refine ⟨last, ?_, ?_⟩
      · rw [List.cons_append, segments, isBoundary_of_startsIdentifier quote previous hstart,
          hafter, hsegments]
        rfl
      · simp [hlast, hbare]

theorem segments_of_isGap {g : Text} {quote : Quote} (hquote : quote.all isQuote = true)
    (hg : Text.IsGap g) (previous : Option Char) : segments quote previous g = [g] := by
  obtain ⟨last, hgap, -⟩ := segments_gap_append hquote hg previous []
  rwa [List.append_nil, segments, Text.prepend_head, List.append_nil] at hgap

end Statement

def RespacedSegments (t t' : Text) : Prop := ∃ s, s.quote = none ∧ TrimmedRests s t t t'

namespace Respaced

/-- Behind gaps against each other, a boundary stands in front of both texts or of neither. -/
theorem isBoundary_eq {g g' : Text} {last last' : Option Char}
    (hrests : TrimmedRests s (c :: t) (c :: t) (c :: t')) (hgap : textRule s p (some c) g g')
    (hlast : last.any isIdentifierChar = (g.isEmpty && p.any isIdentifierChar))
    (hlast' : last'.any isIdentifierChar = (g'.isEmpty && p.any isIdentifierChar)) :
    Statement.isBoundary none last' (c :: t') = Statement.isBoundary none last (c :: t) := by
  cases hc : isIdentifierChar c with
  | false =>
      rw [Statement.isBoundary_of_startsIdentifier none last (t := c :: t) hc,
        Statement.isBoundary_of_startsIdentifier none last' (t := c :: t') hc]
  | true =>
      have hheader : (Statement.behindHeader? (c :: t')).isSome =
          (Statement.behindHeader? (c :: t)).isSome := hrests.behindHeader?.isSome_eq
      have hsame : last'.any isIdentifierChar = last.any isIdentifierChar := by
        rw [hlast, hlast']
        cases hp : p.any isIdentifierChar with
        | false => simp
        | true =>
            obtain ⟨b, rfl, hb⟩ := (Option.any_eq_true _ _).1 hp
            rw [eq_of_textRule hgap (Token.not_isDelimiter_of_isIdentifierChar hb)
              (Token.not_isDelimiter_of_isIdentifierChar hc)]
            cases g <;> rfl
      rw [Statement.isBoundary, Statement.isBoundary, hheader, hsame]

/-- Respaced texts are cut at the same boundaries, into respaced segments. -/
theorem segments (h : Respaced textRule s p t t') (previous previous' : Option Char)
    (hp : s.quote = none → previous.any isIdentifierChar = p.any isIdentifierChar)
    (hp' : s.quote = none → previous'.any isIdentifierChar = p.any isIdentifierChar) :
    Text.CutAlike (Respaced textRule s p) (List.Forall₂ RespacedSegments)
      (Statement.segments s.quote previous t) (Statement.segments s.quote previous' t') := by
  induction h generalizing previous previous' with
  | @gap s p g g' hquote hg hg' hend =>
      rw [Statement.segments_of_isGap hquote hg, Statement.segments_of_isGap hquote hg']
      exact .intro (.gap hquote hg hg' hend) .nil
  | @quoted s p c t t' hquote hrest ih =>
      have hsegments := ih (some c) (some c) (fun _ => rfl) fun _ => rfl
      rw [Nesting.quote_after] at hsegments
      have hopen : ∀ previous u, Statement.isBoundary s.quote previous u = false := by
        intro previous u
        cases hq : s.quote with
        | none => simp [hq] at hquote
        | some q => rfl
      rw [Statement.segments, Statement.segments, hopen, hopen]
      exact hsegments.consHead c fun _ _ hfirst => .quoted hquote hfirst
  | @next s p g g' c t t' hquote hg hg' hblank hgap hrest ih =>
      have hsegments := ih (some c) (some c) (fun _ => rfl) fun _ => rfl
      rw [Nesting.quote_after, hquote] at hsegments
      have hall : s.quote.all isQuote = true := by simp [hquote]
      obtain ⟨last, hg1, hlast⟩ := Statement.segments_gap_append hall hg previous (c :: t)
      obtain ⟨last', hg1', hlast'⟩ := Statement.segments_gap_append hall hg' previous' (c :: t')
      rw [hp hquote] at hlast
      rw [hp' hquote] at hlast'
      have hopened : ∀ {u u' : Text}, Respaced textRule (s.after c) (some c) u u' →
          TrimmedRests s (c :: u) (c :: u) (c :: u') := fun hu =>
        ⟨.refl (.next hquote Text.isGap_nil Text.isGap_nil hblank (free_textRule hgap [] []) hu),
          hblank, hblank⟩
      have hboundary := isBoundary_eq (hopened hrest) hgap hlast hlast'
      rw [hg1, hg1', hquote, Statement.segments, Statement.segments, hboundary]
      cases hcut : Statement.isBoundary none last (c :: t) with
      | true =>
          have hothers := hsegments.consHead (Q := RespacedSegments) c fun _ _ hfirst =>
            ⟨s, hquote, hopened hfirst⟩
          rw [if_pos rfl, if_pos rfl, Text.prepend_head, Text.prepend_head, List.append_nil,
            List.append_nil]
          exact .intro (.gap hall hg hg' fun _ _ _ hd => by cases hd) hothers.forall₂
      | false =>
          exact hsegments.prepend_consHead g g' c fun _ _ hfirst =>
            .next hquote hg hg' hblank hgap hfirst

/-- Chunks of respaced texts are respaced, pair by pair. Each starts outside of quoted runs. -/
theorem chunks (h : Respaced textRule .top none t t') :
    List.Forall₂ (fun chunk chunk' => ∃ s p, s.quote = none ∧ Respaced textRule s p chunk chunk')
      (Statement.chunks t) (Statement.chunks t') := by
  have hsegments := h.segments none none (fun _ => rfl) fun _ => rfl
  rw [Statement.chunks_eq, Statement.chunks_eq]
  refine List.rel_filterMap ?_ hsegments.tail
  rintro segment segment' ⟨s, hs, hrests⟩
  exact hrests.behindHeader?.mono fun _ _ hr => hr.exists_respaced hs

end Respaced
end DdlDiagram
