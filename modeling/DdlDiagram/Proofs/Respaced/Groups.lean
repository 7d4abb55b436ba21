import DdlDiagram.Nesting.Group
import DdlDiagram.Proofs.Respaced.Rules

/-!
# Groups of respaced texts

The scan of a group starts anew at its `(`, outside of quoted runs and with that parenthesis
open. Where the text is in no quoted run either, the scan sees the parentheses that the text has
opened since, so it ends at the same `)` in two respaced texts, and the bodies are respaced. Where
the text is in a quoted run, it still ends in both texts or in neither.
-/

namespace DdlDiagram

open Layout

variable {F G : GapRule} {s n : Nesting} {p : Option Char} {t t' g : Text} {c : Char}

namespace Nesting

theorem isQuote_of_quote_after (h : s.quote.any isQuote = true) (hc : (s.after c).quote = none) :
    isQuote c = true := by
  obtain ⟨q, d⟩ := s
  cases q with
  | none => simp at h
  | some q =>
      rw [quote_after] at hc
      by_cases heq : c = q
      · exact heq ▸ h
      · simp [Quote.after, heq] at hc

theorem all_isQuote_after (h : s.quote.all isQuote = true) :
    (s.after c).quote.all isQuote = true := by
  obtain ⟨q, d⟩ := s
  rw [quote_after]
  cases q with
  | none =>
      cases hc : isQuote c with
      | true => simp [Quote.after, hc]
      | false => simp [Quote.after, hc]
  | some q =>
      by_cases heq : c = q
      · simp [Quote.after, heq]
      · simpa [Quote.after, heq] using h

theorem all_isQuote_afterText (t : Text) (h : s.quote.all isQuote = true) :
    (s.afterText t).quote.all isQuote = true := by
  induction t generalizing s with
  | nil => exact h
  | cons c rest ih => exact ih (all_isQuote_after h)

theorem not_atTop_of_any_isQuote (h : s.quote.any isQuote = true) : s.atTop c = false := by
  cases hq : s.quote with
  | none => simp [hq] at h
  | some q => simp [atTop, hq]

/-- Gaps are part of the body that a scan takes. -/
theorem upToClose_gap_append (hs : s.quote.all isQuote = true) (hg : Text.IsGap g) (t : Text) :
    s.upToClose (g ++ t) = (s.upToClose t).map (g ++ ·) := by
  induction g with
  | nil => simp
  | cons c rest ih =>
      obtain ⟨hc, hrest⟩ := Text.isGap_cons.1 hg
      have hclose : c ≠ ')' := Text.ne_of_isBlank hc rfl
      rw [List.cons_append, upToClose, if_neg fun h => hclose h.1, after_of_isBlank hc hs,
        ih hrest, Option.map_map]
      rfl

end Nesting

/-- Blanks close no group. -/
theorem Text.IsGap.upToClose (hg : IsGap g) (s : Nesting) : s.upToClose g = none := by
  induction g generalizing s with
  | nil => rfl
  | cons c rest ih =>
      obtain ⟨hc, hrest⟩ := isGap_cons.1 hg
      have hclose : c ≠ ')' := ne_of_isBlank hc rfl
      rw [Nesting.upToClose, if_neg fun hend => hclose hend.1, ih hrest]
      rfl

namespace Respaced

/-- A scan of a group ends in both texts or in neither, wherever it starts. -/
theorem isSome_upToClose (h : Respaced F s p t t') (hn : n.quote.all isQuote = true) :
    (n.upToClose t').isSome = (n.upToClose t).isSome := by
  have hgap : ∀ {n : Nesting}, n.quote.all isQuote = true → ∀ {g : Text}, Text.IsGap g → ∀ t,
      (n.upToClose (g ++ t)).isSome = (n.upToClose t).isSome := by
    intro n hn g hg t
    rw [Nesting.upToClose_gap_append hn hg, Option.isSome_map]
  have hcons : ∀ {n : Nesting} {c : Char} {t t' : Text}, n.quote.all isQuote = true →
      (∀ {n : Nesting}, n.quote.all isQuote = true →
        (n.upToClose t').isSome = (n.upToClose t).isSome) →
      (n.upToClose (c :: t')).isSome = (n.upToClose (c :: t)).isSome := by
    intro n c t t' hn ih
    rw [Nesting.upToClose, Nesting.upToClose]
    split
    · rfl
    · rw [Option.isSome_map, Option.isSome_map, ih (Nesting.all_isQuote_after hn)]
  induction h generalizing n with
  | gap _ hg hg' _ => rw [hg.upToClose, hg'.upToClose]
  | quoted _ _ ih => exact hcons hn ih
  | next _ hg hg' _ _ _ ih => rw [hgap hn hg, hgap hn hg', hcons hn ih]

/-- A group is closed if the text ends with nothing open. -/
theorem isSome_upToClose_of_rule (h : Respaced F s p t t')
    (hend : ∀ s p g g', F s p none g g' → s = .top) (hs : s.depth ≠ 0) :
    (s.upToClose t).isSome = true := by
  have hcons : ∀ {s : Nesting} {c : Char} {t : Text},
      ((s.after c).depth ≠ 0 → ((s.after c).upToClose t).isSome = true) → s.depth ≠ 0 →
      (s.upToClose (c :: t)).isSome = true := by
    intro s c t ih hs
    rw [Nesting.upToClose]
    split
    · rfl
    · rename_i hclose
      rw [Option.isSome_map]
      apply ih
      intro hafter
      obtain ⟨q, d⟩ := s
      cases hcovers : q.covers c with
      | true => exact hs (by simpa [Nesting.after, hcovers] using hafter)
      | false =>
          by_cases hc : c = ')'
          · exact hclose ⟨hc, by simp [Nesting.atTop, hcovers, hafter]⟩
          · simp only [Nesting.after, hcovers, Bool.false_eq_true, if_false] at hafter
            by_cases ho : c = '('
            · simp [Depth.after, ho] at hafter
            · exact hs (by simpa [Depth.after_other d ho hc] using hafter)
  induction h with
  | gap _ _ _ hrule =>
      rw [hend _ _ _ _ hrule] at hs
      exact absurd rfl hs
  | quoted _ _ ih => exact hcons ih hs
  | next hquote hg _ _ _ _ ih =>
      rw [Nesting.upToClose_gap_append (by simp [hquote]) hg, Option.isSome_map]
      exact hcons ih hs

end Respaced

/-- Unless a character closes the group, the scan of the group has one parenthesis more open than
its body, and the text around it at least as many. -/
theorem Nesting.after_within {q : Quote} {k : Depth}
    (hclose : ¬ (c = ')' ∧ atTop ⟨q, k + 1⟩ c = true)) : ∃ m : Depth,
      after ⟨q, k + 1⟩ c = ⟨q.after c, m + 1⟩ ∧ after ⟨q, k⟩ c = ⟨q.after c, m⟩ ∧
      (∀ d : Depth, k + 1 ≤ d → m + 1 ≤ (after ⟨q, d⟩ c).depth) ∧
      (q.covers c = false → c = '(' → m ≠ 0) := by
  cases hcovers : q.covers c with
  | true =>
      refine ⟨k, ?_, ?_, ?_, ?_⟩
      · simp [after, hcovers]
      · simp [after, hcovers]
      · intro d hd
        simpa [after, hcovers] using hd
      · exact fun h => absurd h Bool.noConfusion
  | false =>
      obtain ⟨rfl, hafter⟩ := Quote.eq_none_of_not_covers hcovers
      by_cases hopen : c = '('
      · subst hopen
        refine ⟨k + 1, rfl, rfl, fun d hd => ?_, fun _ _ => Nat.succ_ne_zero k⟩
        exact Nat.succ_le_succ hd
      by_cases hc : c = ')'
      · subst hc
        cases k with
        | zero => exact absurd ⟨rfl, rfl⟩ hclose
        | succ j =>
            refine ⟨j, rfl, rfl, fun d hd => ?_, fun _ h => absurd h hopen⟩
            exact Nat.le_sub_one_of_lt hd
      · have hother : ∀ d : Depth, after ⟨none, d⟩ c = ⟨none, d⟩ := fun d => by
          simp only [after, hcovers, Bool.false_eq_true, if_false, Depth.after_other d hopen hc]
        rw [hother, hother, hafter]
        refine ⟨k, rfl, rfl, fun d hd => ?_, fun _ h => absurd h hopen⟩
        rw [hother]
        exact hd

/-- How a rule shows within a group. The text around the group has at least the parenthesis of the
group open, besides those of the body. In the body no character stands before the first one. -/
def GapRule.Within (F G : GapRule) : Prop :=
  ∀ {s : Nesting} {p q : Option Char} {c : Char} {g g' : Text} {k : Depth},
    F s p (some c) g g' → k + 1 ≤ s.depth → (c = ')' → k ≠ 0) →
    (∀ b ∈ q, p = some b ∧ (b = '(' → k ≠ 0)) → G ⟨none, k⟩ q (some c) g g'

namespace Respaced

/-- A scan of a group that is in step with its text takes respaced bodies of respaced texts. -/
theorem upToClose (h : Respaced F s p t t') (hF : F.Within G)
    (hG : ∀ p g g', G .top p none g g') {k : Depth} (hk : k + 1 ≤ s.depth) {q : Option Char}
    (hq : ∀ b ∈ q, p = some b ∧ (s.quote = none → b = '(' → k ≠ 0)) :
    Option.Rel (Respaced G ⟨s.quote, k⟩ q) (Nesting.upToClose ⟨s.quote, k + 1⟩ t)
      (Nesting.upToClose ⟨s.quote, k + 1⟩ t') := by
  induction h generalizing k q with
  | @gap s p g g' hquote hg hg' hend =>
      rw [hg.upToClose, hg'.upToClose]
      exact .none
  | @quoted s p c t t' hquote hrest ih =>
      have htop : Nesting.atTop ⟨s.quote, k + 1⟩ c = false :=
        Nesting.not_atTop_of_any_isQuote hquote
      have hclose : ¬ (c = ')' ∧ Nesting.atTop ⟨s.quote, k + 1⟩ c = true) := fun h =>
        absurd (htop.symm.trans h.2) Bool.noConfusion
      obtain ⟨m, hgroup, hbody, hdepth, -⟩ := Nesting.after_within hclose
      have hq' : ∀ b ∈ some c, some c = some b ∧ ((s.after c).quote = none → b = '(' → m ≠ 0) := by
        intro b hb
        refine ⟨hb, fun hnone hopen => ?_⟩
        obtain rfl := Option.some.inj hb
        subst hopen
        exact absurd (Nesting.isQuote_of_quote_after hquote hnone) Bool.noConfusion
      have hrel := ih (hdepth s.depth hk) hq'
      rw [Nesting.quote_after, ← hgroup, ← hbody] at hrel
      rw [Nesting.upToClose, Nesting.upToClose, if_neg hclose, if_neg hclose]
      exact hrel.map fun _ _ hr => .quoted hquote hr
  | @next s p g g' c t t' hquote hg hg' hblank hgap hrest ih =>
      obtain ⟨quote, d⟩ := s
      obtain rfl : quote = none := hquote
      have hq0 : ∀ b ∈ q, p = some b ∧ (b = '(' → k ≠ 0) := fun b hb =>
        ⟨(hq b hb).1, (hq b hb).2 rfl⟩
      have hgap_append := fun {g : Text} (hg : Text.IsGap g) =>
        Nesting.upToClose_gap_append (s := ⟨none, k + 1⟩) rfl hg
      rw [hgap_append hg, hgap_append hg', Nesting.upToClose, Nesting.upToClose]
      by_cases hclose : c = ')' ∧ Nesting.atTop ⟨none, k + 1⟩ c = true
      · obtain ⟨rfl, htop⟩ := hclose
        have hzero : (k + 1 - 1 == 0) = true := htop
        obtain rfl : k = 0 := by simpa using hzero
        rw [if_pos ⟨rfl, htop⟩, if_pos ⟨rfl, htop⟩, Option.map_some, Option.map_some,
          List.append_nil, List.append_nil]
        exact .some (.gap rfl hg hg' (hG q g g'))
      · obtain ⟨m, hgroup, hbody, hdepth, hopened⟩ := Nesting.after_within hclose
        have hk0 : c = ')' → k ≠ 0 := by
          rintro rfl rfl
          exact hclose ⟨rfl, rfl⟩
        have hq' : ∀ b ∈ some c, some c = some b ∧
            ((Nesting.after ⟨none, d⟩ c).quote = none → b = '(' → m ≠ 0) := by
          intro b hb
          refine ⟨hb, fun _ hopen => ?_⟩
          obtain rfl := Option.some.inj hb
          exact hopened (hopen ▸ rfl) hopen
        have hrel := ih (hdepth d hk) hq'
        rw [Nesting.quote_after, ← hgroup, ← hbody] at hrel
        rw [if_neg hclose, if_neg hclose, Option.map_map, Option.map_map]
        exact hrel.map fun _ _ hr => .next rfl hg hg' hblank (hF hgap hk hk0 hq0) hr

end Respaced

namespace Layout

/-- Within the body of a table a line breaks at most behind a comma. -/
theorem textRule_within : textRule.Within bodyRule := by
  intro s p q c g g' k hgap hk hclose hq
  refine ⟨?_, fun hnone => nomatch hnone⟩
  intro b hb d hd
  obtain rfl := Option.some.inj hd
  obtain ⟨rfl, hopen⟩ := hq b hb
  rcases hgap b rfl c rfl with hbreak | hline
  · left
    obtain ⟨quote, depth⟩ := s
    match depth with
    | 0 => exact absurd hk (Nat.not_succ_le_zero k)
    | 1 =>
        obtain rfl : k = 0 := Nat.le_zero.1 (Nat.le_of_succ_le_succ hk)
        rcases hbreak with hb | hb | hc
        · exact absurd rfl (hopen hb)
        · exact ⟨hb, rfl⟩
        · exact absurd rfl (hclose hc)
    | n + 2 => exact hbreak.elim
  · exact .inr hline

theorem lineRule_within : lineRule.Within lineRule := by
  intro s p q c g g' k hgap _ _ hq
  refine ⟨fun b hb d hd => ?_, fun hnone => nomatch hnone⟩
  exact hgap.1 b (hq b hb).1 d hd

end Layout

namespace Respaced

/-- The bodies of the groups that two rests start with. The text lies in no quoted run there. -/
theorem groupBody? (h : Respaced F (s.after '(') (some '(') t t') (hs : s.quote = none)
    (hF : F.Within G) (hG : ∀ p g g', G .top p none g g') :
    Option.Rel (Respaced G .top none) (Text.groupBody? ('(' :: t))
      (Text.groupBody? ('(' :: t')) := by
  obtain ⟨quote, d⟩ := s
  obtain rfl : quote = none := hs
  have hk : 0 + 1 ≤ (Nesting.after ⟨none, d⟩ '(').depth := Nat.le_add_left 1 d
  exact h.upToClose hF hG hk (q := none) fun b hb => nomatch hb

end Respaced
end DdlDiagram
