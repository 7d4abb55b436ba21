import DdlDiagram.Proofs.Respaced.TableBody
import DdlDiagram.Proofs.Schema.TypeToken

/-!
# Respaced words

A word has gaps only within its parentheses, so two respaced words have the same text in front of
their groups, and groups with respaced bodies. That is all that most readers look at. The token of
a type does not depend on gaps, since a gap comes or goes only beside a character that separates
letters and digits by itself.
-/

namespace DdlDiagram

open Layout

variable {F : GapRule} {s : Nesting} {p : Option Char} {t t' w w' : Text} {c : Char}

namespace Nesting

theorem depth_after_of_ne_open (hs : s.depth = 0) (hc : c ≠ '(') : (s.after c).depth = 0 := by
  obtain ⟨q, d⟩ := s
  obtain rfl : d = 0 := hs
  cases hcovers : q.covers c with
  | true => simp [after, hcovers]
  | false =>
      by_cases hclose : c = ')'
      · subst hclose
        simp [after, hcovers]
      · simp [after, hcovers, Depth.after_other 0 hc hclose]

theorem depth_afterText_of_not_mem (hs : s.depth = 0) (ht : '(' ∉ t) :
    (s.afterText t).depth = 0 := by
  induction t generalizing s with
  | nil => exact hs
  | cons c rest ih =>
      rw [List.mem_cons, not_or] at ht
      exact ih (depth_after_of_ne_open hs (Ne.symm ht.1)) ht.2

theorem depth_after_of_any_isQuote (h : s.quote.any isQuote = true) :
    (s.after c).depth = s.depth := by
  cases hq : s.quote with
  | none => simp [hq] at h
  | some q => simp [after, hq]

end Nesting

namespace Respaced

/-- Words have no gap in front of their first `(`. -/
theorem takeWhile_open (h : Respaced wordRule s p t t') (hs : s.depth = 0) :
    t'.takeWhile (· != '(') = t.takeWhile (· != '(') := by
  have hcons : ∀ {c : Char} {t t' : Text},
      (c ≠ '(' → t'.takeWhile (· != '(') = t.takeWhile (· != '(')) →
      (c :: t').takeWhile (· != '(') = (c :: t).takeWhile (· != '(') := by
    intro c t t' ih
    by_cases hc : c = '('
    · simp [hc]
    · simp [hc, ih hc]
  induction h with
  | gap _ _ _ hend =>
      obtain ⟨rfl, rfl⟩ := hend.2 hs
      rfl
  | quoted hquote _ ih =>
      exact hcons fun _ => ih ((Nesting.depth_after_of_any_isQuote hquote).trans hs)
  | next _ _ _ _ hgap _ ih =>
      obtain ⟨rfl, rfl⟩ := hgap.2 hs
      exact hcons fun hc => ih (Nesting.depth_after_of_ne_open hs hc)

/-- Words that open no group are the same. -/
theorem eq_of_not_opens (h : Respaced wordRule s p t t') (hs : s.depth = 0)
    (hopens : opens s.quote t = false) : t' = t := by
  have hstep : ∀ {s : Nesting} {c : Char} {t : Text}, s.depth = 0 → opens s.quote (c :: t) = false →
      (s.after c).depth = 0 ∧ opens (s.after c).quote t = false := by
    intro s c t hs hopens
    rw [opens, Bool.or_eq_false_iff] at hopens
    refine ⟨?_, by rw [Nesting.quote_after]; exact hopens.2⟩
    cases hcovers : s.quote.covers c with
    | true => simpa [Nesting.after, hcovers] using hs
    | false =>
        refine Nesting.depth_after_of_ne_open hs ?_
        rintro rfl
        simp [hcovers] at hopens
  induction h with
  | gap _ _ _ hend =>
      obtain ⟨rfl, rfl⟩ := hend.2 hs
      rfl
  | quoted _ _ ih =>
      obtain ⟨hs, hopens⟩ := hstep hs hopens
      rw [ih hs hopens]
  | next _ _ _ _ hgap _ ih =>
      obtain ⟨rfl, rfl⟩ := hgap.2 hs
      obtain ⟨hs, hopens⟩ := hstep hs hopens
      rw [List.nil_append, ih hs hopens]
      rfl

end Respaced

namespace Respaced

theorem typeTokenFrom_append {u u' : Text} (h : Respaced wordRule s p t t')
    (hu : ∀ separated, typeTokenFrom separated u' = typeTokenFrom separated u)
    (hs : p = none → s.depth = 0) {separated : Bool}
    (hp : ∀ b ∈ p, b.isAlphanum = true ∨ separated = true) :
    typeTokenFrom separated (t' ++ u') = typeTokenFrom separated (t ++ u) := by
  have hbehind : ∀ c : Char, ∀ b ∈ some c, b.isAlphanum = true ∨ (!c.isAlphanum) = true := by
    intro c b hb
    obtain rfl := Option.some.inj hb
    cases c.isAlphanum <;> simp
  have hcons : ∀ {c : Char} {t t' : Text} {separated separated' : Bool},
      typeTokenFrom (!c.isAlphanum) t' = typeTokenFrom (!c.isAlphanum) t →
      (c.isAlphanum = true → separated' = separated) →
      typeTokenFrom separated' (c :: t') = typeTokenFrom separated (c :: t) := by
    intro c t t' separated separated' ih hsame
    rw [typeTokenFrom, typeTokenFrom]
    cases hc : c.isAlphanum with
    | true => simp_all
    | false => simp_all
  induction h generalizing separated with
  | gap _ _ _ hend =>
      have htop := hend.1.2 rfl
      obtain ⟨rfl, rfl⟩ := hend.2 (htop ▸ rfl)
      exact hu separated
  | quoted _ _ ih => exact hcons (ih (by simp) (hbehind _)) fun _ => rfl
  | @next s p g g' c t t' hquote hg hg' hblank hgap _ ih =>
      rw [List.append_assoc, List.append_assoc, typeTokenFrom_gap_append hg,
        typeTokenFrom_gap_append hg']
      refine hcons (ih (by simp) (hbehind _)) fun hc => ?_
      cases p with
      | none =>
          obtain ⟨rfl, rfl⟩ := hgap.2 (hs rfl)
          rfl
      | some b =>
          rcases hp b rfl with hb | rfl
          · have hplain : ∀ {e : Char}, e.isAlphanum = true → Token.isDelimiter e = false :=
              fun he => Token.not_isDelimiter_of_isIdentifierChar (isIdentifierChar_of_isAlphanum he)
            rw [hgap.1.1 b rfl c rfl, lineGap_of_not_isDelimiter (hplain hb) (hplain hc)]
            cases g <;> rfl
          · rfl

end Respaced

def SameGroup (body body' : Text) : Prop :=
  body' = body ∨ Respaced lineRule .top none body body'

/-- Words that readers take for the same, apart from gaps within a group. -/
structure SameWord (w w' : Text) : Prop where
  beforeGroup : w'.beforeGroup = w.beforeGroup
  group : Option.Rel SameGroup w.group? w'.group?
  is : ∀ k : Keyword, k.is w' = k.is w
  head : w'.head? = w.head?
  typeTokenFrom : ∀ {u u' : Text},
    (∀ separated, typeTokenFrom separated u' = DdlDiagram.typeTokenFrom separated u) →
    ∀ separated, DdlDiagram.typeTokenFrom separated (w' ++ u') =
      DdlDiagram.typeTokenFrom separated (w ++ u)
  settled : isSettled w = true → w' = w

/-- The text in front of a first `(`. -/
theorem Text.takeWhile_open {t u r : Text} (ht : t = u ++ '(' :: r)
    (hr : t.dropWhile (· != '(') = '(' :: r) : t.takeWhile (· != '(') = u ∧ '(' ∉ u := by
  have happend := List.takeWhile_append_dropWhile (p := (· != '(')) (l := t)
  rw [hr] at happend
  obtain rfl := List.append_cancel_right (happend.trans ht)
  exact ⟨rfl, fun hmem => by simpa using List.mem_takeWhile_imp hmem⟩

namespace Respaced

/-- The texts in front of the groups of two words, and the groups. -/
theorem splitGroup (h : Respaced wordRule .top none w w') (hopens : opensBare w = true) :
    w'.beforeGroup = w.beforeGroup ∧ Option.Rel SameGroup w.group? w'.group? := by
  have hsame : ∀ {b b' : Option Text}, b' = b → Option.Rel SameGroup b b' := by
    rintro b b' rfl
    cases b' with
    | none => exact .none
    | some body => exact .some (.inl rfl)
  rcases (Bool.or_eq_true _ _).mp hopens with hnone | hbare
  · have hopens : opens none w = false := by simpa using hnone
    rw [h.eq_of_not_opens rfl hopens]
    exact ⟨rfl, hsame rfl⟩
  · have htake := h.takeWhile_open rfl
    obtain ⟨hnil, hnil'⟩ | ⟨u, r, r', hu, hr, hr', hrest⟩ := h.dropWhile_open
    · have hwhole : ∀ {t : Text}, t.dropWhile (· != '(') = [] → t.takeWhile (· != '(') = t :=
        fun ht => List.takeWhile_eq_self_iff.2 (List.dropWhile_eq_nil_iff.1 ht)
      rw [hwhole hnil, hwhole hnil'] at htake
      rw [htake]
      exact ⟨rfl, hsame rfl⟩
    · obtain ⟨htext, hmem⟩ := Text.takeWhile_open hu hr
      have hunquoted : Quote.afterText none u = none := by simpa [htext] using hbare
      have htop : Nesting.top.afterText u = .top := by
        apply Nesting.eq_top
        · exact (Nesting.quote_afterText _ u).trans hunquoted
        · exact Nesting.depth_afterText_of_not_mem rfl hmem
      rw [htop] at hrest
      have hline := hrest.mono fun _ _ _ _ _ hrule => hrule.1
      have hbody := hline.groupBody? rfl lineRule_within
        fun _ _ _ => ⟨fun _ _ _ hd => (by cases hd), fun _ => rfl⟩
      have hclosed : (Text.groupBody? ('(' :: r)).isSome = true :=
        hline.isSome_upToClose_of_rule (fun _ _ _ _ hrule => hrule.2 rfl) Nat.one_ne_zero
      obtain ⟨body, hb⟩ := Option.isSome_iff_exists.1 hclosed
      rw [hb] at hbody
      obtain ⟨body', hb', hrespaced⟩ := hbody.exists_of_some
      have hsplit : w.splitGroup = (Text.trimEnd u, some body) := by
        rw [Text.splitGroup, hr, hb, htext]
      have hsplit' : w'.splitGroup = (Text.trimEnd u, some body') := by
        rw [Text.splitGroup, hr', hb', htake, htext]
      rw [Text.beforeGroup, Text.beforeGroup, Text.group?, Text.group?, hsplit, hsplit']
      exact ⟨rfl, .some (.inr hrespaced)⟩

/-- A word without `(` is the same in both texts. -/
theorem eq_of_not_mem (h : Respaced wordRule .top none w w') (hmem : '(' ∉ w) : w' = w := by
  have hclear : ∀ {q : Quote} {t : Text}, '(' ∉ t → opens q t = false := by
    intro q t ht
    induction t generalizing q with
    | nil => rfl
    | cons c rest ih =>
        rw [List.mem_cons, not_or] at ht
        simp [opens, Ne.symm ht.1, ih ht.2]
  exact h.eq_of_not_opens rfl (hclear hmem)

theorem keyword_is (h : Respaced wordRule .top none w w') (k : Keyword) : k.is w' = k.is w := by
  have hnot : ∀ {w : Text}, '(' ∈ w → k.is w = false := by
    intro w hmem
    by_contra hk
    exact absurd (Keyword.isBare_of_is (Bool.not_eq_false _ ▸ hk) '(' hmem) (by decide)
  by_cases hmem : '(' ∈ w
  · rw [hnot hmem, hnot ((h.mem_iff rfl).1 hmem)]
  · rw [h.eq_of_not_mem hmem]

/-- Respaced words whose first `(` is not a quoted one are the same to readers. -/
theorem sameWord (h : Respaced wordRule .top none w w') (hopens : opensBare w = true) :
    SameWord w w' where
  beforeGroup := (h.splitGroup hopens).1
  group := (h.splitGroup hopens).2
  is := h.keyword_is
  head := by
    obtain ⟨hblank, hblank'⟩ := h.startsBlank_of_wordRule
    obtain ⟨rfl, rfl, -⟩ | ⟨c, u, u', rfl, rfl, -⟩ := h.head_cases hblank hblank'
    · rfl
    · rfl
  typeTokenFrom := fun hu _ => h.typeTokenFrom_append hu (fun _ => rfl) fun _ hb => nomatch hb
  settled := by
    intro hsettled
    obtain ⟨hblank, hblank'⟩ := h.startsBlank_of_wordRule
    refine h.eq_of_isSettled (fun s b c g g' hrule => ⟨hrule.1.1, fun hnone => ?_⟩) hblank hblank'
      hsettled
    obtain ⟨rfl, rfl⟩ := hrule.2 (hrule.1.2 hnone ▸ rfl)
    rfl

end Respaced
end DdlDiagram
