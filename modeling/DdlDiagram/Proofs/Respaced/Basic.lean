import DdlDiagram.Proofs.Nesting.Words

/-!
# Texts that differ in their gaps

Two texts are respaced if they have the same characters outside of gaps and the same quoted
runs, so that they differ at most in the gaps outside of quoted runs. A rule tells which gap of
one text may stand against which gap of the other. It sees the nesting around the gap and the
characters at its ends, so one relation serves whole texts, table bodies and single words.
-/

namespace Option.Rel

variable {α β γ δ : Type} {R : α → β → Prop} {S : γ → δ → Prop} {a a' : Option α}
variable {b b' : Option β} {f : α → Option γ} {g : β → Option δ}

theorem eq_none (h : Option.Rel R Option.none b) : b = Option.none := by
  cases h
  rfl

theorem exists_of_some {x : α} (h : Option.Rel R (Option.some x) b) :
    ∃ y, b = Option.some y ∧ R x y := by
  cases h with
  | some hxy => exact ⟨_, rfl, hxy⟩

theorem isSome_eq (h : Option.Rel R a b) : b.isSome = a.isSome := by
  cases h with
  | none => rfl
  | some => rfl

theorem mono {R' : α → β → Prop} (h : Option.Rel R a b) (hR : ∀ x y, R x y → R' x y) :
    Option.Rel R' a b := by
  cases h with
  | none => exact .none
  | some hxy => exact .some (hR _ _ hxy)

theorem bind (h : Option.Rel R a b) (hf : ∀ x y, R x y → Option.Rel S (f x) (g y)) :
    Option.Rel S (a.bind f) (b.bind g) := by
  cases h with
  | none => exact .none
  | some hxy => exact hf _ _ hxy

theorem bind_eq {g : β → Option γ} (h : Option.Rel R a b) (hf : ∀ x y, R x y → g y = f x) :
    b.bind g = a.bind f := by
  cases h with
  | none => rfl
  | some hxy => exact hf _ _ hxy

theorem map {f : α → γ} {g : β → δ} (h : Option.Rel R a b) (hf : ∀ x y, R x y → S (f x) (g y)) :
    Option.Rel S (a.map f) (b.map g) := by
  cases h with
  | none => exact .none
  | some hxy => exact .some (hf _ _ hxy)

theorem orElse (h : Option.Rel R a b) (h' : Option.Rel R a' b') :
    Option.Rel R (a <|> a') (b <|> b') := by
  cases h with
  | none => exact h'
  | some hxy => exact .some hxy

theorem filter {f : α → Bool} {g : β → Bool} (h : Option.Rel R a b)
    (hf : ∀ x y, R x y → g y = f x) : Option.Rel R (a.filter f) (b.filter g) := by
  cases h with
  | none => exact .none
  | @some x y hxy =>
      rw [Option.filter_some, Option.filter_some, hf x y hxy]
      split
      · exact .some hxy
      · exact .none

theorem getD {x : α} {y : β} (h : Option.Rel R a b) (hxy : R x y) : R (a.getD x) (b.getD y) := by
  cases h with
  | none => exact hxy
  | some h => exact h

end Option.Rel

namespace DdlDiagram

/-- Which two gaps may stand against each other, by the nesting around them and the characters
before and behind them. No character stands before the first gap of a text, nor behind its
last one. -/
abbrev GapRule := Nesting → Option Char → Option Char → Text → Text → Prop

namespace GapRule

variable (F : GapRule)

/-- Rules that let any gaps stand at the start of a text. -/
def Free : Prop :=
  ∀ {s : Nesting} {p c : Option Char} {g g' : Text}, F s p c g g' → ∀ h h', F s none c h h'

/-- Rules that let any gaps stand at the end of a text. -/
def EndsFree : Prop :=
  ∀ {s : Nesting} {p : Option Char} {g g' : Text}, F s p none g g' → ∀ q h h', F s q none h h'

/-- The rule for texts that do not end in a gap. -/
def closed : GapRule := fun s p c g g' => F s p c g g' ∧ (c = none → g = [] ∧ g' = [])

end GapRule

/-- Texts with the same nesting at the start, behind the same character, that differ only in
gaps that a rule lets stand against each other. Every character has a gap before it, which may
be empty. -/
inductive Respaced (F : GapRule) : Nesting → Option Char → Text → Text → Prop where
  | gap {s : Nesting} {p : Option Char} {g g' : Text} : s.quote.all isQuote = true →
      Text.IsGap g → Text.IsGap g' → F s p none g g' → Respaced F s p g g'
  | quoted {s : Nesting} {p : Option Char} {c : Char} {t t' : Text} :
      s.quote.any isQuote = true → Respaced F (s.after c) (some c) t t' →
      Respaced F s p (c :: t) (c :: t')
  | next {s : Nesting} {p : Option Char} {g g' : Text} {c : Char} {t t' : Text} :
      s.quote = none → Text.IsGap g → Text.IsGap g' → isBlank c = false →
      F s p (some c) g g' → Respaced F (s.after c) (some c) t t' →
      Respaced F s p (g ++ c :: t) (g' ++ c :: t')

namespace Nesting

variable {s : Nesting} {c : Char}

/-- A blank leaves what is open as it is. -/
theorem after_of_isBlank (h : isBlank c = true) (hs : s.quote.all isQuote = true) :
    s.after c = s := after_of_plain (plain_of_isBlank h) hs

theorem all_isQuote_of_any (h : s.quote.any isQuote = true) : s.quote.all isQuote = true := by
  cases hquote : s.quote with
  | none => rfl
  | some q => rwa [hquote] at h

theorem after_of_isGap {g : Text} (h : Text.IsGap g) (hquote : s.quote.all isQuote = true) :
    s.afterText g = s := by
  induction g with
  | nil => rfl
  | cons c rest ih =>
      obtain ⟨hc, hrest⟩ := Text.isGap_cons.1 h
      rw [afterText_cons, after_of_isBlank hc hquote, ih hrest]

/-- Within a quoted run only the quote at its end makes a difference. -/
theorem after_of_ne {q : Char} (hquote : s.quote = some q) (hc : c ≠ q) : s.after c = s := by
  obtain ⟨q', d⟩ := s
  obtain rfl : q' = some q := hquote
  simp [after, Quote.after, hc]

end Nesting

namespace Respaced

variable {F G : GapRule} {s : Nesting} {p p' : Option Char} {t t' : Text}

theorem quoted_of_after {s' : Nesting} {c : Char} (hquote : s.quote.any isQuote = true)
    (hafter : s.after c = s') (h : Respaced F s' (some c) t t') :
    Respaced F s p (c :: t) (c :: t') := by
  subst hafter
  exact .quoted hquote h

theorem next_of_after {s' : Nesting} {c : Char} {g g' : Text} (hquote : s.quote = none)
    (hg : Text.IsGap g) (hg' : Text.IsGap g') (hc : isBlank c = false)
    (hgap : F s p (some c) g g') (hafter : s.after c = s') (h : Respaced F s' (some c) t t') :
    Respaced F s p (g ++ c :: t) (g' ++ c :: t') := by
  subst hafter
  exact .next hquote hg hg' hc hgap h

theorem mono (h : Respaced F s p t t') (hF : ∀ s p c g g', F s p c g g' → G s p c g g') :
    Respaced G s p t t' := by
  induction h with
  | gap hquote hg hg' hend => exact .gap hquote hg hg' (hF _ _ _ _ _ hend)
  | quoted hquote _ ih => exact .quoted hquote ih
  | next hquote hg hg' hc hgap _ ih => exact .next hquote hg hg' hc (hF _ _ _ _ _ hgap) ih

/-- Texts that start with a character start with the same one, and go on respaced. -/
theorem head_cases (h : Respaced F s p t t') (ht : t.startsBlank = false)
    (ht' : t'.startsBlank = false) :
    (t = [] ∧ t' = [] ∧ F s p none [] []) ∨ ∃ c u u', t = c :: u ∧ t' = c :: u' ∧
      Respaced F (s.after c) (some c) u u' ∧
      (s.quote.any isQuote = true ∨
        s.quote = none ∧ isBlank c = false ∧ F s p (some c) [] []) := by
  cases h with
  | gap _ hg hg' hend =>
      obtain rfl := hg.eq_nil_of_startsBlank_append (t.append_nil.symm ▸ ht)
      obtain rfl := hg'.eq_nil_of_startsBlank_append (t'.append_nil.symm ▸ ht')
      exact .inl ⟨rfl, rfl, hend⟩
  | quoted hquote hrest => exact .inr ⟨_, _, _, rfl, rfl, hrest, .inl hquote⟩
  | next hquote hg hg' hc hgap hrest =>
      obtain rfl := hg.eq_nil_of_startsBlank_append ht
      obtain rfl := hg'.eq_nil_of_startsBlank_append ht'
      exact .inr ⟨_, _, _, rfl, rfl, hrest, .inr ⟨hquote, hc, hgap⟩⟩

/-- Both texts are gaps or neither is. -/
theorem isGap_iff (h : Respaced F s p t t') : Text.IsGap t ↔ Text.IsGap t' := by
  induction h with
  | gap _ hg hg' => exact ⟨fun _ => hg', fun _ => hg⟩
  | quoted _ _ ih => rw [Text.isGap_cons, Text.isGap_cons, ih]
  | next _ _ _ hc => simp [hc]

/-- Both texts have the same characters, blanks apart. -/
theorem mem_iff (h : Respaced F s p t t') {d : Char} (hd : isBlank d = false) :
    d ∈ t ↔ d ∈ t' := by
  have hnot : ∀ {g : Text}, Text.IsGap g → d ∉ g := by
    intro g hg hmem
    rw [hg d hmem] at hd
    exact absurd hd.symm Bool.false_ne_true
  induction h with
  | gap _ hg hg' => simp [hnot hg, hnot hg']
  | quoted _ _ ih => simp only [List.mem_cons, ih]
  | next _ hg hg' _ _ _ ih =>
      simp only [List.mem_append, List.mem_cons, hnot hg, hnot hg', false_or, ih]

/-- A rule that keeps every gap behind a character keeps the text behind a character. -/
theorem eq_behind {b : Char} (h : Respaced F s (some b) t t')
    (hF : ∀ s b c g g', F s (some b) c g g' → g' = g) : t' = t := by
  generalize hp : some b = p at h
  induction h generalizing b with
  | gap _ _ _ hend =>
      subst hp
      exact hF _ _ _ _ _ hend
  | quoted _ _ ih => rw [ih rfl]
  | next _ _ _ _ hgap _ ih =>
      subst hp
      rw [ih rfl, hF _ _ _ _ _ hgap]

theorem eq_of_startsBlank (h : Respaced F s p t t') (ht : t.startsBlank = false)
    (ht' : t'.startsBlank = false) (hF : ∀ s b c g g', F s (some b) c g g' → g' = g) :
    t' = t := by
  obtain ⟨rfl, rfl, -⟩ | ⟨c, u, u', rfl, rfl, hrest, -⟩ := h.head_cases ht ht'
  · rfl
  · rw [hrest.eq_behind hF]

/-- Trimming at the start passes over blanks of the first text, which may be quoted ones. -/
theorem trimStart (h : Respaced F s p t t') (hF : F.Free) :
    ∃ u, t = u ++ t.trimStart ∧ Text.IsGap u ∧
      Respaced F (s.afterText u) none t.trimStart t'.trimStart := by
  induction h with
  | @gap s p g g' hquote hg hg' hend =>
      refine ⟨g, by rw [hg.trimStart, List.append_nil], hg, ?_⟩
      rw [hg.trimStart, hg'.trimStart, Nesting.after_of_isGap hg hquote]
      exact .gap hquote Text.isGap_nil Text.isGap_nil (hF hend [] [])
  | @quoted s p c t t' hquote hrest ih =>
      cases hc : isBlank c with
      | true =>
          obtain ⟨u, hsplit, hu, htrim⟩ := ih
          rw [Text.trimStart_cons_of_isBlank hc, Text.trimStart_cons_of_isBlank hc]
          exact ⟨c :: u, congrArg (c :: ·) hsplit, Text.isGap_cons.2 ⟨hc, hu⟩, htrim⟩
      | false =>
          have ht := Text.trimStart_of_startsBlank_eq_false (t := c :: t) hc
          have ht' := Text.trimStart_of_startsBlank_eq_false (t := c :: t') hc
          rw [ht, ht']
          exact ⟨[], rfl, Text.isGap_nil, .quoted hquote hrest⟩
  | @next s p g g' c t t' hquote hg hg' hc hgap hrest =>
      have ht := Text.trimStart_of_startsBlank_eq_false (t := c :: t) hc
      have ht' := Text.trimStart_of_startsBlank_eq_false (t := c :: t') hc
      rw [hg.trimStart_append, hg'.trimStart_append, ht, ht']
      refine ⟨g, rfl, hg, ?_⟩
      rw [Nesting.after_of_isGap hg (by simp [hquote])]
      exact .next hquote Text.isGap_nil Text.isGap_nil hc (hF hgap [] []) hrest

/-- Within a gap nothing opens or closes. -/
theorem rule_of_isGap (h : Respaced F s p t t') (ht : Text.IsGap t) :
    ∃ p g g', F s p none g g' := by
  induction h with
  | gap _ _ _ hend => exact ⟨_, _, _, hend⟩
  | @quoted s p c t t' hquote hrest ih =>
      obtain ⟨hc, ht⟩ := Text.isGap_cons.1 ht
      have hrule := ih ht
      rwa [Nesting.after_of_isBlank hc (Nesting.all_isQuote_of_any hquote)] at hrule
  | next _ _ _ hc => simp [hc] at ht

theorem trimEnd (h : Respaced F s p t t') (hF : F.EndsFree) :
    Respaced F.closed s p t.trimEnd t'.trimEnd := by
  have hclosed : ∀ {s p g g'}, F s p none g g' → ∀ q, F.closed s q none [] [] :=
    fun hend q => ⟨hF hend q [] [], fun _ => ⟨rfl, rfl⟩⟩
  induction h with
  | gap hquote hg hg' hend =>
      rw [hg.trimEnd, hg'.trimEnd]
      exact .gap hquote Text.isGap_nil Text.isGap_nil (hclosed hend _)
  | @quoted s p c t t' hquote hrest ih =>
      by_cases hgap : Text.IsGap t ∧ isBlank c = true
      · -- The run is open at the end of the text, and the whole rest is blank.
        obtain ⟨ht, hc⟩ := hgap
        have hall : Text.IsGap (c :: t) := Text.isGap_cons.2 ⟨hc, ht⟩
        have hall' : Text.IsGap (c :: t') := Text.isGap_cons.2 ⟨hc, hrest.isGap_iff.1 ht⟩
        obtain ⟨_, _, _, hend⟩ := rule_of_isGap (.quoted (p := p) hquote hrest) hall
        rw [hall.trimEnd, hall'.trimEnd]
        exact .gap (Nesting.all_isQuote_of_any hquote) Text.isGap_nil Text.isGap_nil
          (hclosed hend p)
      · have hnot : ¬ Text.IsGap (c :: t) := fun hall =>
          hgap ⟨(Text.isGap_cons.1 hall).2, (Text.isGap_cons.1 hall).1⟩
        have hnot' : ¬ Text.IsGap (c :: t') := (quoted (p := p) hquote hrest).isGap_iff.not.1 hnot
        rw [Text.trimEnd_cons_of_not_isGap hnot, Text.trimEnd_cons_of_not_isGap hnot']
        exact .quoted hquote ih
  | @next s p g g' c t t' hquote hg hg' hc hgap _ ih =>
      have hnot : ∀ u, ¬ Text.IsGap (c :: u) := fun u hu => by simp [hc] at hu
      rw [Text.trimEnd_append_of_not_isGap g (hnot t), Text.trimEnd_append_of_not_isGap g' (hnot t'),
        Text.trimEnd_cons_of_not_isBlank hc, Text.trimEnd_cons_of_not_isBlank hc]
      exact .next hquote hg hg' hc ⟨hgap, fun hnone => nomatch hnone⟩ ih

end Respaced
end DdlDiagram
