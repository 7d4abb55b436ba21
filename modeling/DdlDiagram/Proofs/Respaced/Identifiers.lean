import DdlDiagram.Proofs.Respaced.Words

/-!
# Lists of names in respaced groups

Two respaced groups list equally many names. A name in the first one that is settled is the same
in the second one; of any other it is known only that it is not empty.
-/

namespace DdlDiagram

open Layout

variable {F : GapRule} {s : Nesting} {p : Option Char} {t t' : Text} {b c : Char}

namespace Respaced

theorem nil_iff_of_closed (h : Respaced F.closed s p t t') : t = [] ↔ t' = [] := by
  cases h with
  | gap _ _ _ hend =>
      obtain ⟨rfl, rfl⟩ := hend.2 rfl
      exact Iff.rfl
  | quoted => simp
  | next => simp

/-- A single character behind another one is alone in both texts or in neither. -/
theorem singleton_iff (h : Respaced spanRule.closed s (some b) t t')
    (hb : Token.isDelimiter b = false) (hc : Token.isDelimiter c = false) :
    t = [c] ↔ t' = [c] := by
  cases h with
  | gap _ _ _ hend =>
      obtain ⟨rfl, rfl⟩ := hend.2 rfl
      exact Iff.rfl
  | quoted _ hrest => simp [hrest.nil_iff_of_closed]
  | @next _ _ g g' d u u' _ _ _ _ hgap hrest =>
      have hnil : d = c → (g = [] ↔ g' = []) := by
        rintro rfl
        rw [hgap.1 b rfl d rfl, lineGap_of_not_isDelimiter hb hc]
        cases g <;> simp
      have hsingle : ∀ {g u : Text}, g ++ d :: u = [c] ↔ g = [] ∧ d = c ∧ u = [] := by
        intro g u
        cases g <;> simp
      rw [hsingle, hsingle]
      constructor
      · rintro ⟨hg, hd, hu⟩
        exact ⟨(hnil hd).1 hg, hd, hrest.nil_iff_of_closed.1 hu⟩
      · rintro ⟨hg, hd, hu⟩
        exact ⟨(hnil hd).2 hg, hd, hrest.nil_iff_of_closed.2 hu⟩

/-- Up to their first `(` respaced texts are respaced. -/
theorem span_takeWhile (h : Respaced spanRule s p t t') :
    Respaced spanRule s p (t.takeWhile (· != '(')) (t'.takeWhile (· != '(')) := by
  have hgap : ∀ {g : Text}, Text.IsGap g → ∀ t, (g ++ t).takeWhile (· != '(') =
      g ++ t.takeWhile (· != '(') := fun hg _ => List.takeWhile_append_of_pos (hg.bne rfl)
  have hend : ∀ {s p g g'}, spanRule s p none g g' := fun _ _ _ hd => nomatch hd
  induction h with
  | gap hquote hg hg' hrule =>
      have hnil := fun {g : Text} (hg : Text.IsGap g) => by
        have hwhole := hgap hg []
        rwa [List.append_nil, List.takeWhile_nil, List.append_nil] at hwhole
      rw [hnil hg, hnil hg']
      exact .gap hquote hg hg' hrule
  | @quoted s p c t t' hquote _ ih =>
      by_cases hc : c = '('
      · subst hc
        exact .gap (Nesting.all_isQuote_of_any hquote) Text.isGap_nil Text.isGap_nil hend
      · have htake : ∀ u : Text, (c :: u).takeWhile (· != '(') = c :: u.takeWhile (· != '(') :=
          fun u => List.takeWhile_cons_of_pos (by simp [hc])
        rw [htake, htake]
        exact .quoted hquote ih
  | @next s p g g' c t t' hquote hg hg' hblank hrule _ ih =>
      rw [hgap hg, hgap hg']
      by_cases hc : c = '('
      · subst hc
        have hnil : ∀ u : Text, ('(' :: u).takeWhile (· != '(') = [] := fun u => rfl
        rw [hnil, hnil, List.append_nil, List.append_nil]
        exact .gap (by simp [hquote]) hg hg' hend
      · have htake : ∀ u : Text, (c :: u).takeWhile (· != '(') = c :: u.takeWhile (· != '(') :=
          fun u => List.takeWhile_cons_of_pos (by simp [hc])
        rw [htake, htake]
        exact .next hquote hg hg' hblank hrule ih

end Respaced

namespace Text

theorem closingQuote?_plain {close : Char} (h : closingQuote? c = some close) :
    Token.isDelimiter c = false ∧ Token.isDelimiter close = false := by
  rw [closingQuote?] at h
  repeat' split at h
  · rename_i hc
    exact ⟨hc ▸ rfl, Option.some.inj h ▸ rfl⟩
  · rename_i hc
    exact ⟨hc ▸ rfl, Option.some.inj h ▸ rfl⟩
  · rename_i hc
    exact ⟨hc ▸ rfl, Option.some.inj h ▸ rfl⟩
  · cases h

/-- A name is empty if it has no characters, or none but its quotes. -/
theorem unquote_eq_nil_iff (h : t.trim = t) :
    unquote t = [] ↔ t = [] ∨ ∃ first last, closingQuote? first = some last ∧ t = [first, last] := by
  rw [unquote, h]
  cases t with
  | nil => simp
  | cons first rest =>
      cases hclose : closingQuote? first with
      | none => simp [hclose]
      | some close =>
          rcases List.eq_nil_or_concat rest with rfl | ⟨front, last, rfl⟩
          · simp [hclose]
          · have hlast : (front ++ [last]).getLast? = some last := List.getLast?_concat
            rw [List.concat_eq_append]
            simp only [hclose, hlast, List.dropLast_concat]
            by_cases heq : last = close
            · cases front <;> simp [heq, hclose]
            · cases front <;> simp [heq, hclose, Ne.symm heq]

end Text

namespace RespacedTrimmed

theorem trim_eq (h : RespacedTrimmed F t t') : t.trim = t ∧ t'.trim = t' := by
  rw [Text.trim, Text.trim, Text.trimStart_of_startsBlank_eq_false h.startsBlank,
    Text.trimStart_of_startsBlank_eq_false h.startsBlank']
  exact ⟨h.trimEnd, h.trimEnd'⟩

/-- Both texts are a given pair of quotes or neither is. -/
theorem pair_iff (h : RespacedTrimmed spanRule t t') {first last : Char}
    (hfirst : Token.isDelimiter first = false) (hlast : Token.isDelimiter last = false) :
    t = [first, last] ↔ t' = [first, last] := by
  obtain ⟨rfl, rfl, -⟩ | ⟨c, u, u', rfl, rfl, hrest, -⟩ :=
    h.respaced.head_cases h.startsBlank h.startsBlank'
  · exact Iff.rfl
  · rw [List.cons.injEq, List.cons.injEq]
    refine and_congr_right ?_
    rintro rfl
    exact hrest.singleton_iff hfirst hlast

theorem unquote_nil_iff (h : RespacedTrimmed spanRule t t') :
    t.unquote = [] ↔ t'.unquote = [] := by
  obtain ⟨htrim, htrim'⟩ := h.trim_eq
  rw [Text.unquote_eq_nil_iff htrim, Text.unquote_eq_nil_iff htrim']
  refine or_congr h.nil_iff ?_
  refine exists_congr fun first => exists_congr fun last => and_congr_right fun hclose => ?_
  obtain ⟨hfirst, hlast⟩ := Text.closingQuote?_plain hclose
  exact h.pair_iff hfirst hlast

theorem eq_of_isSettled (h : RespacedTrimmed spanRule t t') (hsettled : isSettled t = true) :
    t' = t := by
  refine h.respaced.eq_of_isSettled (fun s b c g g' hrule => ⟨hrule.1, fun hnone => ?_⟩)
    h.startsBlank h.startsBlank' hsettled
  obtain ⟨rfl, rfl⟩ := hrule.2 hnone
  rfl

/-- In front of their groups, the texts of a line are respaced. -/
theorem beforeGroup (h : RespacedTrimmed lineRule t t') :
    RespacedTrimmed spanRule t.beforeGroup t'.beforeGroup := by
  have hline : Respaced lineRule .top none t t' := h.respaced.mono fun _ _ _ _ _ hrule => hrule.1
  have hwhole : RespacedTrimmed spanRule t t' :=
    ⟨h.respaced.mono fun _ _ _ _ _ hrule => ⟨hrule.1.1, hrule.2⟩, h.startsBlank, h.startsBlank',
      h.trimEnd, h.trimEnd'⟩
  rw [Text.beforeGroup, Text.beforeGroup, Text.splitGroup, Text.splitGroup]
  obtain ⟨hnil, hnil'⟩ | ⟨u, r, r', hu, hr, hr', hrest⟩ := hline.dropWhile_open
  · rw [hnil, hnil']
    exact hwhole
  · have hclosed : (Text.groupBody? ('(' :: r')).isSome = (Text.groupBody? ('(' :: r)).isSome :=
      hrest.isSome_upToClose rfl
    rw [hr, hr']
    cases hb : Text.groupBody? ('(' :: r) <;> cases hb' : Text.groupBody? ('(' :: r') <;>
      rw [hb, hb'] at hclosed
    · exact hwhole
    · exact absurd hclosed Bool.noConfusion
    · exact absurd hclosed Bool.noConfusion
    · have hspan : Respaced spanRule .top none t t' := hline.mono fun _ _ _ _ _ hrule => hrule.1
      have hstart : ∀ {t : Text}, t.startsBlank = false →
          Text.startsBlank (t.takeWhile (· != '(')) = false := by
        intro t ht
        cases t with
        | nil => rfl
        | cons c rest =>
            rw [List.takeWhile_cons]
            split
            · exact ht
            · rfl
      exact ⟨hspan.span_takeWhile.trimEnd endsFree_spanRule,
        Text.startsBlank_trimEnd (hstart h.startsBlank),
        Text.startsBlank_trimEnd (hstart h.startsBlank'), Text.trimEnd_trimEnd _,
        Text.trimEnd_trimEnd _⟩

end RespacedTrimmed

namespace Text

def listedName (part : Text) : Text := part.trim.beforeGroup.unquote

theorem identifiers_eq_filter (t : Text) :
    t.identifiers = ((t.partsBetween ',').map listedName).filter (!·.isEmpty) := rfl

end Text

namespace SameGroup

/-- The parts of two groups, with the names in them. -/
theorem forall₂_listedName (h : Respaced lineRule .top none t t') :
    List.Forall₂ (fun part part' => (part.listedName = [] ↔ part'.listedName = []) ∧
      (isSettled part.trim.beforeGroup = true → part'.listedName = part.listedName))
      (t.partsBetween ',') (t'.partsBetween ',') := by
  have hbody : Respaced bodyRule .top none t t' :=
    h.mono fun _ _ _ _ _ hrule => bodyRule_of_lineRule hrule
  refine hbody.partsBetween_comma.imp fun part part' hpart => ?_
  have hname := hpart.trim.beforeGroup
  refine ⟨hname.unquote_nil_iff, fun hsettled => ?_⟩
  rw [Text.listedName, Text.listedName, hname.eq_of_isSettled hsettled]

theorem identifiers_nil_iff (h : SameGroup t t') : t.identifiers = [] ↔ t'.identifiers = [] := by
  rcases h with rfl | h
  · exact Iff.rfl
  · rw [Text.identifiers_eq_filter, Text.identifiers_eq_filter]
    have hparts := forall₂_listedName h
    generalize t.partsBetween ',' = parts at hparts ⊢
    generalize t'.partsBetween ',' = parts' at hparts ⊢
    induction hparts with
    | nil => exact Iff.rfl
    | @cons part part' parts parts' hpart _ ih =>
        rw [List.map_cons, List.map_cons]
        cases hname : part.listedName <;> cases hname' : part'.listedName
        · simpa [List.filter_cons] using ih
        · exact absurd (hpart.1.1 hname) (by simp [hname'])
        · exact absurd (hpart.1.2 hname') (by simp [hname])
        · simp

theorem identifiers_eq (h : SameGroup t t')
    (hsettled : ∀ part ∈ t.partsBetween ',', isSettled part.trim.beforeGroup = true) :
    t'.identifiers = t.identifiers := by
  rcases h with rfl | h
  · rfl
  · rw [Text.identifiers_eq_filter, Text.identifiers_eq_filter]
    have hparts := forall₂_listedName h
    generalize t.partsBetween ',' = parts at hparts hsettled ⊢
    generalize t'.partsBetween ',' = parts' at hparts ⊢
    induction hparts with
    | nil => rfl
    | cons hpart _ ih =>
        obtain ⟨hfirst, hrest⟩ := List.forall_mem_cons.1 hsettled
        rw [List.map_cons, List.map_cons, hpart.2 hfirst, List.filter_cons, List.filter_cons,
          ih hrest]

end SameGroup
end DdlDiagram
