import DdlDiagram.Proofs.Respaced.Rules
import DdlDiagram.Proofs.Statement.Keyword
import DdlDiagram.TableBody

/-!
# Scans of respaced texts

A scan that takes a run of characters of a kind takes the same run of two respaced texts, and
leaves two respaced rests. What it took of the first text leads to the nesting at the rests.
-/

namespace DdlDiagram

variable {F : GapRule} {s : Nesting} {p : Option Char} {t t' r r' g : Text} {c : Char}

/-- The rests that scans of two texts have left, where the first scan took no quotes. -/
def RespacedRests (F : GapRule) (s : Nesting) (t r r' : Text) : Prop :=
  ∃ u p, t = u ++ r ∧ (∀ c ∈ u, isQuote c = false) ∧ Respaced F (s.afterText u) p r r'

namespace RespacedRests

theorem refl (h : Respaced F s p t t') : RespacedRests F s t t t' := ⟨[], p, rfl, by simp, h⟩

/-- A scan of two rests leaves rests of the texts. -/
theorem trans {u v v' : Text} (ht : t = u ++ r) (hu : ∀ c ∈ u, isQuote c = false)
    (h : RespacedRests F (s.afterText u) r v v') : RespacedRests F s t v v' := by
  obtain ⟨w, q, rfl, hw, hv⟩ := h
  rw [← Nesting.afterText_append] at hv
  exact ⟨u ++ w, q, by rw [ht, List.append_assoc], List.forall_mem_append.2 ⟨hu, hw⟩, hv⟩

theorem cons (hc : isQuote c = false) (h : RespacedRests F (s.after c) t r r') :
    RespacedRests F s (c :: t) r r' := by
  obtain ⟨u, q, rfl, hu, hr⟩ := h
  exact ⟨c :: u, q, rfl, List.forall_mem_cons.2 ⟨hc, hu⟩, hr⟩

theorem trimStart (h : RespacedRests F s t r r') (hF : F.Free) :
    RespacedRests F s t r.trimStart r'.trimStart := by
  obtain ⟨u, q, ht, hu, hr⟩ := h
  obtain ⟨w, hsplit, hw, htrim⟩ := hr.trimStart hF
  exact .trans ht hu ⟨w, none, hsplit, fun c hc => Token.not_isQuote_of_isBlank (hw c hc), htrim⟩

/-- Rests that start with no blank start with the same character, if with any. -/
theorem exists_cons_iff (h : RespacedRests F s t r r') (hr : r.startsBlank = false)
    (hr' : r'.startsBlank = false) (c : Char) : (∃ v', r' = c :: v') ↔ ∃ v, r = c :: v := by
  obtain ⟨u, q, -, -, hrest⟩ := h
  obtain ⟨rfl, rfl, -⟩ | ⟨d, w, w', rfl, rfl, -⟩ := hrest.head_cases hr hr'
  · exact Iff.rfl
  · simp

/-- A character that both rests start with may be taken off. -/
theorem tail (h : RespacedRests F s t (c :: r) (c :: r')) (hblank : isBlank c = false)
    (hquote : isQuote c = false) : RespacedRests F s t r r' := by
  obtain ⟨u, q, ht, hu, hr⟩ := h
  obtain ⟨hnil, -⟩ | ⟨d, v, v', heq, heq', hrest, -⟩ := hr.head_cases hblank hblank
  · exact absurd hnil (List.cons_ne_nil c r)
  · obtain ⟨rfl, rfl⟩ := List.cons.inj heq
    obtain ⟨-, rfl⟩ := List.cons.inj heq'
    exact .trans ht hu (.cons hquote (.refl hrest))

/-- A scan that starts outside of quoted runs stays there. -/
theorem exists_respaced (h : RespacedRests F s t r r') (hs : s.quote = none) :
    ∃ s p, s.quote = none ∧ Respaced F s p r r' := by
  obtain ⟨u, q, -, hu, hr⟩ := h
  exact ⟨s.afterText u, q, by rw [Nesting.quote_afterText, hs, Quote.afterText_of_not_isQuote hu],
    hr⟩

end RespacedRests

theorem Token.not_isDelimiter_of_isIdentifierChar (h : isIdentifierChar c = true) :
    isDelimiter c = false := by
  by_contra hc
  simp only [isDelimiter, Bool.not_eq_false, Bool.or_eq_true, beq_iff_eq] at hc
  rcases hc with ((rfl | rfl) | rfl) | rfl <;> exact absurd h (by decide)

namespace Text

theorem takeWhile_of_startsIdentifier (h : t.startsIdentifier = false) :
    t.takeWhile isIdentifierChar = [] := by
  cases t with
  | nil => rfl
  | cons c rest =>
      have hc : isIdentifierChar c = false := h
      simp [hc]

theorem dropWhile_of_startsIdentifier (h : t.startsIdentifier = false) :
    t.dropWhile isIdentifierChar = t := by
  cases t with
  | nil => rfl
  | cons c rest =>
      have hc : isIdentifierChar c = false := h
      simp [hc]

end Text

namespace Respaced

open Layout

/-- Places where the gap before an identifier character tells whether it continues a word: at the
start of both texts, or behind a character that is no delimiter. -/
def KeepsBare (p : Option Char) (t t' : Text) : Prop :=
  t.startsBlank = false ∧ t'.startsBlank = false ∨ ∃ b, p = some b ∧ Token.isDelimiter b = false

theorem nil_iff_of_keepsBare {g' : Text} (hp : KeepsBare p (g ++ c :: t) (g' ++ c :: t'))
    (hg : Text.IsGap g) (hg' : Text.IsGap g') (hgap : textRule s p (some c) g g')
    (hc : Token.isDelimiter c = false) : g = [] ↔ g' = [] := by
  rcases hp with ⟨ht, ht'⟩ | ⟨b, rfl, hb⟩
  · simp [hg.eq_nil_of_startsBlank_append ht, hg'.eq_nil_of_startsBlank_append ht']
  · rw [eq_of_textRule hgap hb hc]
    cases g <;> simp

/-- Respaced texts start with the same bare word. -/
theorem bareWord (h : Respaced textRule s p t t') (hp : KeepsBare p t t') :
    t'.takeWhile isIdentifierChar = t.takeWhile isIdentifierChar ∧
      RespacedRests textRule s t (t.dropWhile isIdentifierChar)
        (t'.dropWhile isIdentifierChar) := by
  have hstop : ∀ {s p t t'}, Respaced textRule s p t t' → Text.startsIdentifier t = false →
      Text.startsIdentifier t' = false →
      t'.takeWhile isIdentifierChar = t.takeWhile isIdentifierChar ∧
        RespacedRests textRule s t (t.dropWhile isIdentifierChar)
          (t'.dropWhile isIdentifierChar) := by
    intro s p t t' h ht ht'
    rw [Text.takeWhile_of_startsIdentifier ht, Text.takeWhile_of_startsIdentifier ht',
      Text.dropWhile_of_startsIdentifier ht, Text.dropWhile_of_startsIdentifier ht']
    exact ⟨rfl, .refl h⟩
  induction h with
  | gap hquote hg hg' hend =>
      have hstart := fun {g : Text} (hg : Text.IsGap g) =>
        List.append_nil g ▸ hg.startsIdentifier_append (t := []) (.inr rfl)
      exact hstop (.gap hquote hg hg' hend) (hstart hg) (hstart hg')
  | @quoted s p c t t' hquote hrest ih =>
      cases hc : isIdentifierChar c with
      | false => exact hstop (.quoted (p := p) hquote hrest) hc hc
      | true =>
          have hdelimiter := Token.not_isDelimiter_of_isIdentifierChar hc
          obtain ⟨htake, hdrop⟩ := ih (.inr ⟨c, rfl, hdelimiter⟩)
          simp only [List.takeWhile_cons, List.dropWhile_cons, hc, if_true, htake]
          exact ⟨trivial, hdrop.cons (isQuote_eq_false_of_isIdentifierChar hc)⟩
  | @next s p g g' c t t' hquote hg hg' hblank hgap hrest ih =>
      have hwhole := Respaced.next hquote hg hg' hblank hgap hrest
      cases hc : isIdentifierChar c with
      | false =>
          exact hstop hwhole (hg.startsIdentifier_append (.inr hc))
            (hg'.startsIdentifier_append (.inr hc))
      | true =>
          have hdelimiter := Token.not_isDelimiter_of_isIdentifierChar hc
          have hnil := nil_iff_of_keepsBare hp hg hg' hgap hdelimiter
          by_cases hg0 : g = []
          · obtain rfl := hg0
            obtain rfl := hnil.1 rfl
            obtain ⟨htake, hdrop⟩ := ih (.inr ⟨c, rfl, hdelimiter⟩)
            simp only [List.nil_append, List.takeWhile_cons, List.dropWhile_cons, hc, if_true, htake]
            exact ⟨trivial, hdrop.cons (isQuote_eq_false_of_isIdentifierChar hc)⟩
          · exact hstop hwhole (hg.startsIdentifier_append (.inl hg0))
              (hg'.startsIdentifier_append (.inl fun h0 => hg0 (hnil.2 h0)))

end Respaced
end DdlDiagram
