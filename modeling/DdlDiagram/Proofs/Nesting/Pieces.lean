import DdlDiagram.Nesting.Pieces
import DdlDiagram.Proofs.Text.Prepend

/-!
# Pieces on their own

A cut leaves nothing open, so behind it a text is read as from its start, and a piece is the same
whether it is read within its text or alone: there is no cut in it, and nothing is open behind it if
another piece follows. Such pieces are kept apart by a separator: joined with it, they are cut where
they were joined and nowhere else.
-/

namespace DdlDiagram

variable {cut : Char → Bool} {s : Nesting} {t u : Text} {sep c : Char} {parts : List Text}

namespace Nesting

/-- Texts in which no cut stands where nothing is open. -/
def HasNoCut (cut : Char → Bool) (t : Text) : Prop :=
  ∀ before c after, t = before ++ c :: after → top.afterText before = top → cut c = false

/-- A character that is neither quote nor parenthesis moves nothing. -/
theorem after_plain {d : Depth} {c : Char} (hquote : isQuote c = false) (hopen : c ≠ '(')
    (hclose : c ≠ ')') : after ⟨none, d⟩ c = ⟨none, d⟩ := by
  simp [after, hquote, d.after_other hopen hclose]

/-- Such a character is at top level where nothing is open. -/
theorem atTop_iff_eq_top (hc : isQuote c = false ∧ c ≠ '(' ∧ c ≠ ')') :
    s.atTop c = true ↔ s = top := by
  obtain ⟨hquote, hopen, hclose⟩ := hc
  constructor
  · intro h
    have hafter := after_eq_top_of_atTop h
    rw [atTop, Bool.and_eq_true, Bool.not_eq_true'] at h
    obtain ⟨quote, d⟩ := s
    obtain rfl : quote = none := (Quote.eq_none_of_not_covers h.1).1
    rwa [after_plain hquote hopen hclose] at hafter
  · rintro rfl
    simp [atTop, top, hquote, after_plain hquote hopen hclose]

/-- Wherever such a character stands, it moves nothing. -/
theorem after_of_plain (hc : isQuote c = false ∧ c ≠ '(' ∧ c ≠ ')')
    (hs : s.quote.all isQuote = true) : s.after c = s := by
  obtain ⟨hquote, hopen, hclose⟩ := hc
  obtain ⟨q, d⟩ := s
  cases q with
  | none => exact after_plain hquote hopen hclose
  | some close =>
      have hne : c ≠ close := by
        rintro rfl
        exact absurd (hquote.symm.trans hs) Bool.false_ne_true
      simp [after, Quote.after, hne]

/-- A character at which a text is not cut is the first one of its first piece. -/
theorem pieces_cons_of_not_cut (hcut : (s.atTop c && cut c) = false) (t : Text) :
    pieces cut s (c :: t) = Text.consHead c (pieces cut (s.after c) t) := by
  rw [pieces, hcut, if_neg Bool.false_ne_true]

/-- A text is one piece, or ends its first piece at the first cut. -/
theorem pieces_eq_or_exists_cut (cut : Char → Bool) (s : Nesting) (t : Text) :
    pieces cut s t = [t] ∨ ∃ u c v, t = u ++ c :: v ∧ pieces cut s u = [u] ∧
      (s.afterText u).atTop c = true ∧ cut c = true := by
  induction t generalizing s with
  | nil => exact .inl rfl
  | cons c rest ih =>
      cases hcut : s.atTop c && cut c with
      | true =>
          obtain ⟨htop, hc⟩ := (Bool.and_eq_true _ _).mp hcut
          exact .inr ⟨[], c, rest, rfl, rfl, htop, hc⟩
      | false =>
          have hcons := pieces_cons_of_not_cut hcut
          rcases ih (s.after c) with hwhole | ⟨u, d, v, rfl, hwhole, htop, hd⟩
          · left
            rw [hcons, hwhole]
            rfl
          · right
            refine ⟨c :: u, d, v, rfl, ?_, htop, hd⟩
            rw [hcons, hwhole]
            rfl

/-- What holds of a text that is one piece, and of such a piece with a cut behind it and any text of
which it holds, holds of all texts. -/
theorem pieces_induction (cut : Char → Bool) {motive : Text → Prop}
    (whole : ∀ t, pieces cut top t = [t] → motive t)
    (cons : ∀ u c v, pieces cut top u = [u] → (top.afterText u).atTop c = true → cut c = true →
      pieces cut top (u ++ c :: v) = u :: pieces cut top v → motive v → motive (u ++ c :: v))
    (t : Text) : motive t := by
  induction hn : t.length using Nat.strongRecOn generalizing t with
  | ind n ih =>
      rcases pieces_eq_or_exists_cut cut top t with hwhole | ⟨u, c, v, rfl, hwhole, htop, hc⟩
      · exact whole t hwhole
      · have hpieces := pieces_append_cons htop hc v
        rw [hwhole, List.singleton_append] at hpieces
        refine cons u c v hwhole htop hc hpieces (ih v.length ?_ v rfl)
        rw [← hn, List.length_append, List.length_cons]
        omega

/-- A piece read alone is not cut. -/
theorem pieces_of_mem_pieces (h : u ∈ pieces cut top t) : pieces cut top u = [u] := by
  induction t using pieces_induction cut with
  | whole t hwhole =>
      rw [hwhole, List.mem_singleton] at h
      rwa [h]
  | cons w c v hwhole _ _ hpieces ih =>
      rw [hpieces, List.mem_cons] at h
      rcases h with rfl | hmem
      · exact hwhole
      · exact ih hmem

/-- Texts that are not cut are the pieces of their join if the separators between them are cuts. -/
theorem pieces_join (hne : parts ≠ []) (hsep : cut sep = true)
    (hwhole : ∀ part ∈ parts, pieces cut top part = [part])
    (htop : ∀ part ∈ parts.dropLast, (top.afterText part).atTop sep = true) :
    pieces cut top (Text.join [sep] parts) = parts := by
  induction parts with
  | nil => exact absurd rfl hne
  | cons part others ih =>
      obtain ⟨hpart, hothers⟩ := List.forall_mem_cons.1 hwhole
      by_cases hrest : others = []
      · rw [hrest]
        exact hpart
      · rw [List.dropLast_cons_of_ne_nil hrest, List.forall_mem_cons] at htop
        rw [Text.join_cons_of_ne_nil hrest, List.append_assoc, List.singleton_append,
          pieces_append_cons htop.1 hsep, hpart, ih hrest hothers htop.2, List.singleton_append]

section
variable (hplain : ∀ c, cut c = true → isQuote c = false ∧ c ≠ '(' ∧ c ≠ ')')
include hplain

/-- A text is one piece exactly if no cut stands where nothing is open. -/
theorem pieces_eq_singleton_iff : pieces cut top t = [t] ↔ HasNoCut cut t := by
  constructor
  · rintro h before c after rfl htop
    rw [← Bool.not_eq_true]
    intro hc
    rw [pieces_append_cons ((atTop_iff_eq_top (hplain c hc)).2 htop) hc] at h
    have hlength := congrArg List.length h
    have hfront := List.length_pos_iff.2 (pieces_ne_nil cut top before)
    have hbehind := List.length_pos_iff.2 (pieces_ne_nil cut top after)
    rw [List.length_append, List.length_singleton] at hlength
    omega
  · intro h
    rcases pieces_eq_or_exists_cut cut top t with hwhole | ⟨u, c, v, heq, -, htop, hc⟩
    · exact hwhole
    · have hnone := h u c v heq ((atTop_iff_eq_top (hplain c hc)).1 htop)
      exact absurd (hnone.symm.trans hc) Bool.false_ne_true

/-- Nothing is open behind a piece that another one follows. -/
theorem afterText_of_mem_dropLast_pieces (h : u ∈ (pieces cut top t).dropLast) :
    top.afterText u = top := by
  induction t using pieces_induction cut with
  | whole t hwhole =>
      rw [hwhole] at h
      exact nomatch h
  | cons w c v _ htop hc hpieces ih =>
      rw [hpieces, List.dropLast_cons_of_ne_nil (pieces_ne_nil cut top v), List.mem_cons] at h
      rcases h with rfl | hmem
      · exact (atTop_iff_eq_top (hplain c hc)).1 htop
      · exact ih hmem

end

end Nesting

namespace Text

open Nesting

/-- Texts that a separator keeps apart: it stands in none of them where nothing is open, and nothing
is open behind any of them but the last. -/
structure KeptApart (sep : Char) (parts : List Text) : Prop where
  ne_nil : parts ≠ []
  hasNoCut : ∀ part ∈ parts, HasNoCut (· == sep) part
  afterText_eq : ∀ part ∈ parts.dropLast, top.afterText part = top

theorem plain_of_beq (hsep : isQuote sep = false ∧ sep ≠ '(' ∧ sep ≠ ')') :
    ∀ c, (c == sep) = true → isQuote c = false ∧ c ≠ '(' ∧ c ≠ ')' := by
  intro c hc
  obtain rfl := beq_iff_eq.1 hc
  exact hsep

theorem keptApart_partsBetween (hsep : isQuote sep = false ∧ sep ≠ '(' ∧ sep ≠ ')') (t : Text) :
    KeptApart sep (partsBetween sep t) where
  ne_nil := partsBetween_ne_nil sep t
  hasNoCut _ hmem := (pieces_eq_singleton_iff (plain_of_beq hsep)).1 (pieces_of_mem_pieces hmem)
  afterText_eq _ hmem := afterText_of_mem_dropLast_pieces (plain_of_beq hsep) hmem

theorem KeptApart.partsBetween_join (hsep : isQuote sep = false ∧ sep ≠ '(' ∧ sep ≠ ')')
    (h : KeptApart sep parts) : partsBetween sep (join [sep] parts) = parts := by
  rw [partsBetween]
  apply pieces_join h.ne_nil (by simp)
  · intro part hmem
    exact (pieces_eq_singleton_iff (plain_of_beq hsep)).2 (h.hasNoCut part hmem)
  · intro part hmem
    exact (atTop_iff_eq_top hsep).2 (h.afterText_eq part hmem)

/-- Splitting at a separator and joining with it undo each other. Every text is the join of its
parts, which are kept apart and not split any further, and texts that are kept apart are the parts
of their join. -/
theorem partsBetween_and_join_inverse (hquote : isQuote sep = false) (hopen : sep ≠ '(')
    (hclose : sep ≠ ')') :
    (∀ t, join [sep] (partsBetween sep t) = t ∧ KeptApart sep (partsBetween sep t) ∧
      ∀ part ∈ partsBetween sep t, partsBetween sep part = [part]) ∧
    ∀ parts, KeptApart sep parts → partsBetween sep (join [sep] parts) = parts := by
  have hsep := And.intro hquote (And.intro hopen hclose)
  refine ⟨fun t => ⟨join_partsBetween sep t, keptApart_partsBetween hsep t, ?_⟩, ?_⟩
  · intro part hmem
    exact pieces_of_mem_pieces hmem
  · intro parts h
    exact h.partsBetween_join hsep

/-- Parts between separators of two bytes: with a parenthesis that closes nothing, with separators
in quotes and in parentheses, an empty one, and one with a quote and a parenthesis left open. -/
def accentedParts : List Text := [")a".toList, "'é)' (é(é))".toList, [], "b\"(é".toList]

theorem partsBetween_and_join_inverse_accentedParts :
    isQuote 'é' = false ∧ 'é' ≠ '(' ∧ 'é' ≠ ')' ∧ KeptApart 'é' accentedParts ∧
      partsBetween 'é' (join ['é'] accentedParts) = accentedParts ∧
      ∀ part ∈ accentedParts, partsBetween 'é' part = [part] := by
  have hquote : isQuote 'é' = false := by decide
  have hopen : 'é' ≠ '(' := by decide
  have hclose : 'é' ≠ ')' := by decide
  have hwhole : ∀ part ∈ accentedParts, top.pieces (· == 'é') part = [part] := by decide
  have hclosed : ∀ part ∈ accentedParts.dropLast, top.afterText part = top := by decide
  have hkept : KeptApart 'é' accentedParts := by
    refine ⟨List.cons_ne_nil _ _, fun part hmem => ?_, hclosed⟩
    exact (pieces_eq_singleton_iff (plain_of_beq ⟨hquote, hopen, hclose⟩)).1 (hwhole part hmem)
  obtain ⟨hsplit, hjoin⟩ := partsBetween_and_join_inverse hquote hopen hclose
  have hparts := hjoin accentedParts hkept
  obtain ⟨-, -, hsingle⟩ := hsplit (join ['é'] accentedParts)
  rw [hparts] at hsingle
  exact ⟨hquote, hopen, hclose, hkept, hparts, hsingle⟩

end Text
end DdlDiagram
