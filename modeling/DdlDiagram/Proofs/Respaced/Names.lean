import DdlDiagram.Proofs.Respaced.Groups
import DdlDiagram.Proofs.Respaced.Statement
import DdlDiagram.Proofs.TableBody.Names

/-!
# Table names of respaced texts

A name is read in segments, and the segments of respaced texts correspond. A bare segment is the
same in both, and so is one within quotes. Square brackets are quotes only for the reader: in a
layout the gaps between them follow the rule of a text, which keeps single spaces between
characters that are no delimiters. So a name that is plain is the same in both texts, too.
-/

namespace DdlDiagram

open Layout

variable {s : Nesting} {p : Option Char} {sep c : Char} {t t' r r' g a a' : Text}

namespace Layout

/-- The gaps of a plain name are single spaces. -/
theorem isPlainName_gap_append (hg : Text.IsGap g) {blank : Bool}
    (h : isPlainName blank (g ++ t) = true) :
    (g = [] ∨ g = [' ']) ∧ ∃ blank', isPlainName blank' t = true := by
  cases g with
  | nil => exact ⟨.inl rfl, blank, h⟩
  | cons c rest =>
      obtain ⟨hc, hrest⟩ := Text.isGap_cons.1 hg
      rw [List.cons_append, isPlainName, if_pos hc, Bool.and_eq_true, Bool.and_eq_true] at h
      obtain ⟨⟨hspace, -⟩, h⟩ := h
      cases rest with
      | nil => exact ⟨.inr (by rw [beq_iff_eq.1 hspace]), true, h⟩
      | cons d others =>
          rw [List.cons_append, isPlainName, if_pos (Text.isGap_cons.1 hrest).1] at h
          simp at h

theorem isPlainName_cons (hc : isBlank c = false) {blank : Bool}
    (h : isPlainName blank (c :: t) = true) :
    Token.isDelimiter c = false ∧ isPlainName false t = true := by
  rw [isPlainName, if_neg (by simp [hc])] at h
  simp only [Bool.and_eq_true, Bool.not_eq_true'] at h
  exact ⟨h.1.2, h.2⟩

theorem isPlainName_tail {blank : Bool} (h : isPlainName blank (c :: t) = true) :
    ∃ blank', isPlainName blank' t = true := by
  rw [isPlainName] at h
  split at h
  · exact ⟨true, ((Bool.and_eq_true _ _).mp h).2⟩
  · exact ⟨false, ((Bool.and_eq_true _ _).mp h).2⟩

end Layout

/-- Places outside of quoted runs are behind a character that is no delimiter. -/
def Guarded (s : Nesting) (p : Option Char) : Prop :=
  s.quote = none → ∃ b, p = some b ∧ Token.isDelimiter b = false

/-- How the texts in front of a separator correspond. -/
structure SameName (s : Nesting) (p : Option Char) (sep : Char) (a a' : Text) : Prop where
  nil_iff : Guarded s p → (a' = [] ↔ a = [])
  plain : Guarded s p → ∀ blank, isPlainName blank a = true → a' = a
  quoted : s.quote = some sep → a' = a

/-- A split of a text by its first separator and one of another text, with respaced rests. -/
structure SameSplit (s : Nesting) (p : Option Char) (sep : Char) (x y : Text × Text) : Prop where
  rest : ∃ q, Respaced textRule (s.afterText (x.1 ++ [sep])) q x.2 y.2
  name : SameName s p sep x.1 y.1

namespace Text

theorem splitOnce_gap_append (hg : IsGap g) (hsep : isBlank sep = false) (t : Text) :
    splitOnce sep (g ++ t) = (splitOnce sep t).map fun x => (g ++ x.1, x.2) := by
  induction g with
  | nil => simp
  | cons c rest ih =>
      obtain ⟨hc, hrest⟩ := isGap_cons.1 hg
      rw [List.cons_append, splitOnce, if_neg (ne_of_isBlank hc hsep), ih hrest, Option.map_map]
      rfl

theorem IsGap.splitOnce (hg : IsGap g) (hsep : isBlank sep = false) :
    Text.splitOnce sep g = none := by
  have hgap := splitOnce_gap_append hg hsep []
  rwa [List.append_nil] at hgap

end Text

namespace Respaced

/-- Respaced texts are split at the same separator. -/
theorem splitOnce (h : Respaced textRule s p t t') (hsep : isBlank sep = false)
    (hdelimiter : Token.isDelimiter sep = false) :
    Option.Rel (SameSplit s p sep) (Text.splitOnce sep t) (Text.splitOnce sep t') := by
  induction h with
  | @gap s p g g' hquote hg hg' hend =>
      rw [hg.splitOnce hsep, hg'.splitOnce hsep]
      exact .none
  | @quoted s p c t t' hquote hrest ih =>
      rw [Text.splitOnce, Text.splitOnce]
      split
      · rename_i heq
        subst heq
        exact .some ⟨⟨some c, hrest⟩, fun _ => Iff.rfl, fun _ _ _ => rfl, fun _ => rfl⟩
      · rename_i hne
        refine ih.map ?_
        rintro ⟨a, r⟩ ⟨a', r'⟩ ⟨hrests, hname⟩
        refine ⟨hrests, ⟨fun _ => by simp, fun _ blank hplain => ?_, fun hopen => ?_⟩⟩
        · have hguarded : Guarded (s.after c) (some c) := fun hnone =>
            ⟨c, rfl, Token.not_isDelimiter_of_isQuote (Nesting.isQuote_of_quote_after hquote hnone)⟩
          obtain ⟨blank', hplain⟩ := isPlainName_tail hplain
          exact congrArg (c :: ·) (hname.plain hguarded blank' hplain)
        · have hafter : s.after c = s := Nesting.after_of_ne hopen hne
          exact congrArg (c :: ·) (hname.quoted (hafter.symm ▸ hopen))
  | @next s p g g' c t t' hquote hg hg' hblank hgap hrest ih =>
      have hsame : Guarded s p → Token.isDelimiter c = false →
          g' = if g.isEmpty then [] else [' '] := by
        intro hguarded hc
        obtain ⟨b, rfl, hb⟩ := hguarded hquote
        exact eq_of_textRule hgap hb hc
      have hsingle : ∀ {b : Text}, g' = (if g.isEmpty then [] else [' ']) →
          g = [] ∨ g = [' '] → g' ++ b = g ++ b := by
        rintro b h (rfl | rfl) <;> rw [h] <;> rfl
      have hgapText : s.afterText g = s := Nesting.after_of_isGap hg (by simp [hquote])
      rw [Text.splitOnce_gap_append hg hsep, Text.splitOnce_gap_append hg' hsep, Text.splitOnce,
        Text.splitOnce]
      split
      · rename_i heq
        subst heq
        refine .some ⟨⟨some c, ?_⟩, fun hguarded => ?_, fun hguarded blank hplain => ?_, ?_⟩
        · simpa [Nesting.afterText_append, hgapText] using hrest
        · simp only [List.append_nil, hsame hguarded hdelimiter]
          cases g <;> simp
        · exact hsingle (hsame hguarded hdelimiter) (isPlainName_gap_append hg hplain).1
        · intro hopen
          cases hquote.symm.trans hopen
      · rw [Option.map_map, Option.map_map]
        refine ih.map ?_
        rintro ⟨a, r⟩ ⟨a', r'⟩ ⟨⟨q, hrests⟩, hname⟩
        refine ⟨⟨q, ?_⟩, fun _ => by simp, fun hguarded blank hplain => ?_, fun hopen => ?_⟩
        · simpa [Nesting.afterText_append, hgapText] using hrests
        · obtain ⟨hspaces, blank', hplain⟩ := isPlainName_gap_append hg hplain
          obtain ⟨hc, hplain⟩ := isPlainName_cons hblank hplain
          have heq : a' = a := hname.plain (fun _ => ⟨c, rfl, hc⟩) false hplain
          rw [← heq]
          exact hsingle (hsame hguarded hc) hspaces
        · cases hquote.symm.trans hopen

end Respaced

/-- A name read off a text, with the rest, and one read off another text. The second name is the
first one if that is plain, or if no square bracket was passed outside of quoted runs. -/
structure SameSegment (s : Nesting) (t : Text) (x y : Text × Text) : Prop where
  rest : ∃ u q, t = u ++ x.2 ∧ Respaced textRule (s.afterText u) q x.2 y.2 ∧
    (s.quote = none → '[' ∉ u → y.1 = x.1 ∧ (s.afterText u).quote = none)
  nil_iff : y.1 = [] ↔ x.1 = []
  plain : isPlainName false x.1 = true → y.1 = x.1

namespace SameSegment

variable {u : Text} {x y : Text × Text}

/-- A name behind a text that opens no quoted run. -/
theorem behind (ht : t = u ++ r) (hu : s.quote = none → '[' ∉ u → (s.afterText u).quote = none)
    (h : SameSegment (s.afterText u) r x y) : SameSegment s t x y where
  rest := by
    obtain ⟨v, q, hr, hrest, hname⟩ := h.rest
    rw [← Nesting.afterText_append] at hrest hname
    refine ⟨u ++ v, q, by rw [ht, hr, List.append_assoc], hrest, fun hs hmem => ?_⟩
    rw [List.mem_append, not_or] at hmem
    exact hname (hu hs hmem.1) hmem.2
  nil_iff := h.nil_iff
  plain := h.plain

end SameSegment

namespace Respaced

/-- Behind an opening quote of the reader the name ends at the closing one. -/
theorem quotedSegment (h : Respaced textRule (s.after c) (some c) t t') {close : Char}
    (hclose : closingQuote? c = some close) :
    Option.Rel (SameSegment s (c :: t)) (Text.splitOnce close t) (Text.splitOnce close t') := by
  have hmarks := isQuote_or_bracket hclose
  have hplain : Token.isDelimiter c = false ∧ Token.isDelimiter close = false ∧
      isBlank close = false := by
    rcases hmarks with ⟨hc, rfl⟩ | ⟨rfl, rfl⟩
    · exact ⟨Token.not_isDelimiter_of_isQuote hc, Token.not_isDelimiter_of_isQuote hc,
        Token.not_isBlank_of_isQuote hc⟩
    · exact ⟨rfl, rfl, rfl⟩
  have hguarded : Guarded (s.after c) (some c) := fun _ => ⟨c, rfl, hplain.1⟩
  have hsplit := h.splitOnce hplain.2.2 hplain.2.1
  generalize ha : Text.splitOnce close t = x, Text.splitOnce close t' = x' at hsplit
  cases hsplit with
  | none => exact .none
  | @some x x' hsame =>
      obtain ⟨⟨q, hrest⟩, hname⟩ := hsame
      have ht := Text.splitOnce_eq_append ha
      refine .some ⟨⟨c :: x.1 ++ [close], q, ?_, hrest, fun hs hmem => ?_⟩, hname.nil_iff hguarded,
        hname.plain hguarded false⟩
      · rw [ht, List.append_assoc]
        rfl
      · rcases hmarks with ⟨hc, rfl⟩ | ⟨rfl, -⟩
        · have hopen : (s.after close).quote = some close := by
            simp [hs, Quote.after, hc]
          have hend : ((s.after close).afterText (x.1 ++ [close])).quote = none := by
            rw [Nesting.quote_afterText, hopen, Quote.afterText_append,
              Quote.afterText_of_not_mem (Text.not_mem_of_splitOnce ha)]
            exact Quote.after_close close
          exact ⟨hname.quoted hopen, hend⟩
        · exact absurd List.mem_cons_self hmem

/-- Texts that start with a segment start with the same kind of segment. -/
theorem rawSegment? (h : Respaced textRule s p t t') (ht : t.startsBlank = false)
    (ht' : t'.startsBlank = false) :
    Option.Rel (SameSegment s t) (TableBody.rawSegment? t) (TableBody.rawSegment? t') := by
  obtain ⟨rfl, rfl, -⟩ | ⟨c, u, u', rfl, rfl, hrest, -⟩ := h.head_cases ht ht'
  · exact .none
  · rw [TableBody.rawSegment?, TableBody.rawSegment?]
    cases hclose : closingQuote? c with
    | some close => exact hrest.quotedSegment hclose
    | none =>
        obtain ⟨hword, u1, q, hsplit, hquotes, hrests⟩ := h.bareWord (.inl ⟨ht, ht'⟩)
        refine .some
          ⟨⟨u1, q, hsplit, hrests, fun hs _ => ⟨hword, ?_⟩⟩, by simp [hword], fun _ => hword⟩
        rw [Nesting.quote_afterText, hs, Quote.afterText_of_not_isQuote hquotes]

theorem segment? (h : Respaced textRule s p t t') (ht : t.startsBlank = false)
    (ht' : t'.startsBlank = false) :
    Option.Rel (SameSegment s t) (TableBody.segment? t) (TableBody.segment? t') := by
  refine (h.rawSegment? ht ht').filter ?_
  intro x y hxy
  have hempty : y.1.isEmpty = x.1.isEmpty := by
    rw [Bool.eq_iff_iff, List.isEmpty_iff, List.isEmpty_iff]
    exact hxy.nil_iff
  rw [hempty]

/-- Respaced texts start with names of the same form. -/
theorem name? (h : Respaced textRule s p t t') (ht : t.startsBlank = false)
    (ht' : t'.startsBlank = false) :
    Option.Rel (SameSegment s t) (TableBody.name? t) (TableBody.name? t') := by
  have hstart := Text.startsBlank_trimStart
  fun_induction TableBody.name? t generalizing s p t' with
  | case1 t hx =>
      have hnone := (hx ▸ h.segment? ht ht').eq_none
      rw [TableBody.name?_of_segment?_eq_none hnone]
      exact .none
  | case2 t first rest hx next hpoint ih =>
      obtain ⟨x', hx', hsame⟩ := (hx ▸ h.segment? ht ht').exists_of_some
      obtain ⟨u, q, hsplit, hrest, hname⟩ := hsame.rest
      have hrests := (RespacedRests.refl hrest).trimStart free_textRule
      obtain ⟨next', hpoint'⟩ :=
        (hrests.exists_cons_iff (hstart _) (hstart _) '.').2 ⟨next, hpoint⟩
      rw [hpoint, hpoint'] at hrests
      obtain ⟨v, q', hv, hquotes, hnext⟩ := (hrests.tail rfl rfl).trimStart free_textRule
      rw [TableBody.name?_of_point hx' hpoint']
      have hrel := ih hnext (hstart _) (hstart _)
      rw [← Nesting.afterText_append] at hrel
      refine hrel.mono fun y y' hy => ?_
      refine .behind (u := u ++ v) ?_ ?_ hy
      · rw [List.append_assoc, ← hv]
        exact hsplit
      · intro hs hmem
        rw [List.mem_append, not_or] at hmem
        rw [Nesting.afterText_append, Nesting.quote_afterText, (hname hs hmem.1).2,
          Quote.afterText_of_not_isQuote hquotes]
  | case3 t last rest hx hlast =>
      obtain ⟨x', hx', hsame⟩ := (hx ▸ h.segment? ht ht').exists_of_some
      obtain ⟨u, q, -, hrest, -⟩ := hsame.rest
      have hrests := (RespacedRests.refl hrest).trimStart free_textRule
      have hlast' : ∀ r', x'.2.trimStart ≠ '.' :: r' := by
        intro r' hr'
        obtain ⟨r, hr⟩ := (hrests.exists_cons_iff (hstart _) (hstart _) '.').1 ⟨r', hr'⟩
        exact hlast r hr
      rw [TableBody.name?_of_not_point hx' hlast']
      exact .some hsame

end Respaced
end DdlDiagram
