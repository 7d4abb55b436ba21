import DdlDiagram.Proofs.Respaced.Names
import DdlDiagram.Proofs.Respaced.Pieces

/-!
# Table bodies of respaced chunks

Two respaced chunks either both declare a table or have the same fault. If one of them declares a
table with a tidy head, the other one declares a table of the same name, and the declarations
differ in the gaps of a line.
-/

namespace DdlDiagram

open Layout

variable {F : GapRule} {s : Nesting} {p : Option Char} {t t' : Text}

structure RespacedTrimmed (F : GapRule) (t t' : Text) : Prop where
  respaced : Respaced F.closed .top none t t'
  startsBlank : t.startsBlank = false
  startsBlank' : t'.startsBlank = false
  trimEnd : t.trimEnd = t
  trimEnd' : t'.trimEnd = t'

theorem Text.startsBlank_trimEnd (h : t.startsBlank = false) : t.trimEnd.startsBlank = false := by
  cases t with
  | nil => rfl
  | cons c rest =>
      have hc : isBlank c = false := h
      rw [trimEnd_cons_of_not_isBlank hc]
      exact hc

theorem RespacedTrimmed.nil_iff (h : RespacedTrimmed F t t') : t = [] ↔ t' = [] := by
  obtain ⟨rfl, rfl, -⟩ | ⟨c, u, u', rfl, rfl, -⟩ :=
    h.respaced.head_cases h.startsBlank h.startsBlank'
  · exact Iff.rfl
  · simp

namespace Respaced

/-- Trimmed, the texts of a line have no gaps at their ends. -/
theorem trim (h : Respaced lineRule .top none t t') :
    RespacedTrimmed lineRule t.trim t'.trim := by
  obtain ⟨u, -, hu, htrim⟩ := h.trimStart free_lineRule
  rw [Nesting.after_of_isGap hu rfl] at htrim
  exact ⟨htrim.trimEnd endsFree_lineRule, Text.startsBlank_trimEnd (Text.startsBlank_trimStart t),
    Text.startsBlank_trimEnd (Text.startsBlank_trimStart t'), Text.trimEnd_trimEnd _,
    Text.trimEnd_trimEnd _⟩

/-- The first `(` of two respaced texts, if there is one, with the text in front of the first
one. -/
theorem dropWhile_open (h : Respaced F s p t t') :
    (t.dropWhile (· != '(') = [] ∧ t'.dropWhile (· != '(') = []) ∨
      ∃ u r r', t = u ++ '(' :: r ∧ t.dropWhile (· != '(') = '(' :: r ∧
        t'.dropWhile (· != '(') = '(' :: r' ∧
        Respaced F ((s.afterText u).after '(') (some '(') r r' := by
  have hgap : ∀ {g : Text}, Text.IsGap g → ∀ t, (g ++ t).dropWhile (· != '(') =
      t.dropWhile (· != '(') := fun hg _ => List.dropWhile_append_of_pos (hg.bne rfl)
  induction h with
  | gap _ hg hg' =>
      have hnil := fun {g : Text} (hg : Text.IsGap g) => List.append_nil g ▸ hgap hg []
      exact .inl ⟨hnil hg, hnil hg'⟩
  | @quoted s p c t t' hquote hrest ih =>
      by_cases hc : c = '('
      · subst hc
        exact .inr ⟨[], t, t', rfl, rfl, rfl, hrest⟩
      · have hdrop : ∀ u : Text, (c :: u).dropWhile (· != '(') = u.dropWhile (· != '(') := fun u =>
          List.dropWhile_cons_of_pos (by simp [hc])
        rw [hdrop, hdrop]
        refine ih.imp id ?_
        rintro ⟨u, r, r', rfl, hr, hr', hrest⟩
        exact ⟨c :: u, r, r', rfl, hr, hr', hrest⟩
  | @next s p g g' c t t' hquote hg hg' hblank hrule hrest ih =>
      have hafter : s.afterText g = s := Nesting.after_of_isGap hg (by simp [hquote])
      rw [hgap hg, hgap hg']
      by_cases hc : c = '('
      · subst hc
        refine .inr ⟨g, t, t', rfl, rfl, rfl, ?_⟩
        rw [hafter]
        exact hrest
      · have hdrop : ∀ u : Text, (c :: u).dropWhile (· != '(') = u.dropWhile (· != '(') := fun u =>
          List.dropWhile_cons_of_pos (by simp [hc])
        rw [hdrop, hdrop]
        refine ih.imp id ?_
        rintro ⟨u, r, r', rfl, hr, hr', hrest⟩
        refine ⟨g ++ c :: u, r, r', by simp, hr, hr', ?_⟩
        rw [Nesting.afterText_append, hafter]
        exact hrest

end Respaced

namespace TrimmedRests

variable {r r' : Text}

/-- The words `IF NOT EXISTS` are passed over in both texts or in neither. -/
theorem behindIfNotExists (h : TrimmedRests s t r r') :
    TrimmedRests s t (TableBody.behindIfNotExists r) (TableBody.behindIfNotExists r') := by
  have hwords : Option.Rel (TrimmedRests s t)
      ((TableBody.skip? .ifWord r).bind fun u => (TableBody.skip? .notWord u).bind
        (TableBody.skip? .existsWord))
      ((TableBody.skip? .ifWord r').bind fun u => (TableBody.skip? .notWord u).bind
        (TableBody.skip? .existsWord)) := by
    apply (h.skip? .ifWord).bind
    intro u u' hu
    apply (hu.skip? .notWord).bind
    intro v v' hv
    exact hv.skip? .existsWord
  exact hwords.getD h

end TrimmedRests

namespace TableBody

/-- The declarations of respaced bodies are respaced, one by one. -/
theorem declarationsOf_respaced (h : Respaced bodyRule .top none t t') :
    List.Forall₂ (RespacedTrimmed lineRule) (declarationsOf t) (declarationsOf t') := by
  have htrim : List.Forall₂ (RespacedTrimmed lineRule) ((t.partsBetween ',').map Text.trim)
      ((t'.partsBetween ',').map Text.trim) := by
    rw [List.forall₂_map_left_iff, List.forall₂_map_right_iff]
    exact h.partsBetween_comma.imp fun _ _ hparts => hparts.trim
  refine List.rel_filter ?_ htrim
  intro line line' hlines
  have hnil := hlines.nil_iff
  cases line <;> cases line' <;> simp_all

/-- What a chunk declares, by its name, the text from its first group on, and the group. -/
theorem ofChunk_eq (chunk : Text) : ofChunk chunk =
    match name? (behindIfNotExists chunk.trimStart) with
    | none => .error .noName
    | some (name, _) =>
      match Layout.groupOf chunk with
      | [] => .error .noBody
      | group =>
        match Text.groupBody? group with
        | none => .error .unclosedBody
        | some body => .ok ⟨name, declarationsOf body⟩ := by
  rw [ofChunk, Layout.groupOf]
  cases name? (behindIfNotExists chunk.trimStart) <;> rfl

end TableBody

/-- How what two chunks declare corresponds, where the first one has the given head. -/
inductive SameBody (head : Text) :
    Except TableBody.Fault TableBody → Except TableBody.Fault TableBody → Prop where
  | error (fault : TableBody.Fault) : SameBody head (.error fault) (.error fault)
  | ok {body body' : TableBody} :
      (isTidyHead body.name head = true → body'.name = body.name ∧
        List.Forall₂ (RespacedTrimmed lineRule) body.declarations body'.declarations) →
      SameBody head (.ok body) (.ok body')

namespace Layout

theorem headOf_append (head group : Text) : headOf (head ++ group) group = head := by
  rw [headOf, List.length_append, Nat.add_sub_cancel, List.take_left]

end Layout

namespace Respaced

/-- The group behind the names of two chunks, with the text in front of the first group. -/
theorem ofChunk (h : Respaced textRule s p t t') (hs : s.quote = none) :
    SameBody (headOf t (groupOf t)) (TableBody.ofChunk t) (TableBody.ofChunk t') := by
  have hrests : TrimmedRests s t (TableBody.behindIfNotExists t.trimStart)
      (TableBody.behindIfNotExists t'.trimStart) :=
    (TrimmedRests.of_rests (.refl h)).behindIfNotExists
  obtain ⟨⟨u, q, ht, hquotes, hrest⟩, hblank, hblank'⟩ := hrests
  have hopen : (s.afterText u).quote = none := by
    rw [Nesting.quote_afterText, hs, Quote.afterText_of_not_isQuote hquotes]
  have hname := hrest.name? hblank hblank'
  rw [TableBody.ofChunk_eq, TableBody.ofChunk_eq]
  generalize hx : TableBody.name? (TableBody.behindIfNotExists t.trimStart) = x,
    hx' : TableBody.name? (TableBody.behindIfNotExists t'.trimStart) = x' at hname
  cases hname with
  | none => exact .error _
  | @some x x' hsame =>
      obtain ⟨v, q', hv, hbehind, hkeep⟩ := hsame.rest
      have hgroup : groupOf t = x.2.dropWhile (· != '(') := by rw [groupOf, hx]
      have hgroup' : groupOf t' = x'.2.dropWhile (· != '(') := by rw [groupOf, hx']
      obtain ⟨hnil, hnil'⟩ | ⟨w, r, r', hw, hr, hr', hbody⟩ := hbehind.dropWhile_open
      · rw [hgroup, hgroup', hnil, hnil']
        exact .error _
      · rw [hgroup, hgroup', hr, hr']
        have hhead : headOf t ('(' :: r) = u ++ v ++ w := by
          have hsplit : t = (u ++ v ++ w) ++ '(' :: r := by
            rw [ht, hv, hw]
            simp
          rw [hsplit]
          exact headOf_append _ _
        have hclosed : (Text.groupBody? ('(' :: r')).isSome = (Text.groupBody? ('(' :: r)).isSome :=
          hbody.isSome_upToClose rfl
        rw [← Nesting.afterText_append, ← Nesting.afterText_append] at hbody
        rw [hhead]
        cases hb : Text.groupBody? ('(' :: r) <;> cases hb' : Text.groupBody? ('(' :: r') <;>
          simp only [hb, hb'] at hclosed ⊢
        · exact .error _
        · exact absurd hclosed Bool.noConfusion
        · exact absurd hclosed Bool.noConfusion
        rename_i body body'
        refine .ok fun htidy => ?_
        obtain ⟨hquote, hbrackets⟩ := (Bool.and_eq_true _ _).mp htidy
        constructor
        · rcases (Bool.or_eq_true _ _).mp hbrackets with hmem | hplain
          · refine (hkeep hopen fun hv => ?_).1
            simp [hv] at hmem
          · exact hsame.plain hplain
        · have hbodies := hbody.groupBody? (G := bodyRule)
            (by simpa [Nesting.quote_afterText, hs] using hquote) textRule_within
            fun _ _ _ => ⟨fun _ _ _ hd => (nomatch hd), fun _ => rfl⟩
          rw [hb, hb'] at hbodies
          cases hbodies with
          | some hrespaced => exact TableBody.declarationsOf_respaced hrespaced

end Respaced
end DdlDiagram
