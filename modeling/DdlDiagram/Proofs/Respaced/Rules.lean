import DdlDiagram.Proofs.Layout.Tidy
import DdlDiagram.Proofs.Respaced.Basic

/-!
# The rules of a layout

Within parentheses that are within parentheses a layout leaves the gaps of a line. At the edges
of table bodies and behind the commas of their declarations it may break the line, and outside
of parentheses it is free at every delimiter. A reader that has come down to one declaration sees
nothing but the gaps of a line, and one that has come down to a word none at top level.
-/

namespace DdlDiagram
namespace Layout

variable {b c : Char} {spaced : Bool}

/-- Between characters that are no delimiters a gap is kept as a single space. -/
theorem lineGap_of_not_isDelimiter (hb : Token.isDelimiter b = false)
    (hc : Token.isDelimiter c = false) : lineGap b c spaced = if spaced then [' '] else [] := by
  simp only [Token.isDelimiter, Bool.or_eq_false_iff, beq_eq_false_iff_ne] at hb hc
  simp [lineGap, hb, hc]

/-- Whether a layout may break the line between two characters, at a depth. -/
def MayBreak (b c : Char) : Depth → Prop
  | 0 => Token.isDelimiter b = true ∨ Token.isDelimiter c = true
  | 1 => b = '(' ∨ b = ',' ∨ c = ')'
  | _ => False

/-- The rule between the characters of a line. -/
def spanRule : GapRule := fun _ p c g g' => ∀ b ∈ p, ∀ d ∈ c, g' = lineGap b d (!g.isEmpty)

def textRule : GapRule := fun s p c g g' =>
  ∀ b ∈ p, ∀ d ∈ c, MayBreak b d s.depth ∨ g' = lineGap b d (!g.isEmpty)

/-- The rule of a table body, which ends where nothing is open. -/
def bodyRule : GapRule := fun s p c g g' =>
  (∀ b ∈ p, ∀ d ∈ c, (b = ',' ∧ s.depth = 0) ∨ g' = lineGap b d (!g.isEmpty)) ∧
    (c = none → s = .top)

/-- The rule of a declaration, or of the body of a group within one. -/
def lineRule : GapRule := fun s p c g g' => spanRule s p c g g' ∧ (c = none → s = .top)

/-- The rule of a declaration whose words stay apart and whole. -/
def declarationRule : GapRule := fun s p c g g' =>
  lineRule s p c g g' ∧ (s.depth = 0 → p ≠ none → c ≠ none → (g = [] ↔ g' = []))

/-- The rule of a word, which has gaps only within parentheses. -/
def wordRule : GapRule := fun s p c g g' =>
  lineRule s p c g g' ∧ (s.depth = 0 → g = [] ∧ g' = [])

theorem free_textRule : textRule.Free := fun _ _ _ _ hb => nomatch hb

theorem free_lineRule : lineRule.Free := fun h _ _ => ⟨fun _ hb => (nomatch hb), h.2⟩

theorem endsFree_spanRule : spanRule.EndsFree := fun _ _ _ _ _ _ _ hd => nomatch hd

theorem endsFree_lineRule : lineRule.EndsFree := fun h _ _ _ =>
  ⟨fun _ _ _ hd => (nomatch hd), h.2⟩

variable {s : Nesting} {p d : Option Char} {g g' : Text}

/-- No line breaks between characters that are no delimiters. -/
theorem eq_of_textRule (h : textRule s (some b) (some c) g g')
    (hb : Token.isDelimiter b = false) (hc : Token.isDelimiter c = false) :
    g' = if g.isEmpty then [] else [' '] := by
  have hbreak : ∀ n : Depth, ¬ MayBreak b c n := by
    intro n
    simp only [Token.isDelimiter, Bool.or_eq_false_iff, beq_eq_false_iff_ne] at hb hc
    rcases n with _ | _ | n
    · simp [MayBreak, Token.isDelimiter, hb, hc]
    · simp [MayBreak, hb, hc]
    · exact id
  have hline := (h b rfl c rfl).resolve_left (hbreak _)
  rw [hline, lineGap_of_not_isDelimiter hb hc]
  cases g <;> rfl

theorem bodyRule_of_lineRule (h : lineRule s p d g g') : bodyRule s p d g g' :=
  ⟨fun b hb c hc => .inr (h.1 b hb c hc), h.2⟩

variable {test : Nesting → Char → Char → Text → Bool} {t : Text}

theorem gapsPass_gap_append (hquote : s.quote = none) (hg : Text.IsGap g)
    (hc : isBlank c = false) (h : Text) : gapsPass test s p h (g ++ c :: t) =
      (p.all (test s · c (h ++ g)) && gapsPass test (s.after c) (some c) [] t) := by
  induction g generalizing h with
  | nil => simp [gapsPass, hquote, hc]
  | cons d rest ih =>
      obtain ⟨hd, hrest⟩ := Text.isGap_cons.1 hg
      rw [List.cons_append, gapsPass, hquote, hd, ih hrest]
      simp

end Layout

open Layout

/-- A test that all gaps of a text pass may be added to its rule. -/
theorem Respaced.and_test {F : GapRule} {s : Nesting} {p : Option Char} {t t' : Text}
    {test : Nesting → Char → Char → Text → Bool} (h : Respaced F s p t t')
    (ht : gapsPass test s p [] t = true) :
    Respaced (fun s p c g g' => F s p c g g' ∧ ∀ b ∈ p, ∀ d ∈ c, test s b d g = true) s p t t' := by
  induction h with
  | gap hquote hg hg' hend => exact .gap hquote hg hg' ⟨hend, fun _ _ _ hd => nomatch hd⟩
  | @quoted s p c t t' hquote _ ih =>
      have hsome : s.quote.isSome = true := by
        cases hq : s.quote with
        | none => simp [hq] at hquote
        | some q => rfl
      rw [gapsPass, if_pos hsome] at ht
      exact .quoted hquote (ih ht)
  | @next s p g g' c t t' hquote hg hg' hc hgap _ ih =>
      rw [gapsPass_gap_append hquote hg hc, Bool.and_eq_true] at ht
      refine .next hquote hg hg' hc ⟨hgap, ?_⟩ (ih ht.2)
      rintro b rfl d hd
      obtain rfl := Option.some.inj hd
      exact ht.1

theorem Respaced.of_keepsWords {t t' : Text} (h : Respaced lineRule .top none t t')
    (ht : keepsWords t = true) : Respaced declarationRule .top none t t' := by
  refine (h.and_test ht).mono fun s p c g g' hrule => ⟨hrule.1, fun hdepth hp hc => ?_⟩
  obtain ⟨b, rfl⟩ := Option.ne_none_iff_exists'.1 hp
  obtain ⟨d, rfl⟩ := Option.ne_none_iff_exists'.1 hc
  have htest := hrule.2 b rfl d rfl
  rw [← hrule.1.1 b rfl d rfl, hdepth] at htest
  cases g <;> cases g' <;> simp_all

/-- A settled text is the same in a layout. -/
theorem Respaced.eq_of_isSettled {F : GapRule} {t t' : Text} (h : Respaced F .top none t t')
    (hF : ∀ s b c g g', F s (some b) c g g' → spanRule s (some b) c g g' ∧ (c = none → g' = g))
    (ht : t.startsBlank = false) (ht' : t'.startsBlank = false) (hsettled : isSettled t = true) :
    t' = t := by
  refine (h.and_test hsettled).eq_of_startsBlank ht ht' fun s b c g g' hrule => ?_
  obtain ⟨hspan, hend⟩ := hF s b c g g' hrule.1
  cases c with
  | none => exact hend rfl
  | some c =>
      have htest := hrule.2 b rfl c rfl
      rw [hspan b rfl c rfl]
      exact (beq_iff_eq.1 htest).symm

end DdlDiagram
