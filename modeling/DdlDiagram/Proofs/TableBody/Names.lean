import DdlDiagram.Proofs.Identifier.Spelling
import DdlDiagram.Proofs.Text.Split
import DdlDiagram.TableBody

/-!
# Names of tables

The name of a table is spelled as an identifier, with others before it that a point separates from
what follows; blanks may stand around the points. These spellings are what the reader takes for a
name, and the name it finds is the last identifier. A chunk that starts with a spelling and goes on
with a group is read as the table of that name.
-/

namespace DdlDiagram

open Nesting Text

/-- The ways to write the name of a table, alone or behind qualifiers. -/
inductive SpellsName : Text → Text → Prop where
  | single {t name : Text} : Spells t name → SpellsName t name
  | qualified {s qualifier g g' t name : Text} : Spells s qualifier → IsGap g → IsGap g' →
      SpellsName t name → SpellsName (s ++ (g ++ '.' :: (g' ++ t))) name

theorem SpellsName.ne_nil {t name : Text} (h : SpellsName t name) : name ≠ [] := by
  induction h with
  | single hspells => exact hspells.ne_nil
  | qualified _ _ _ _ ih => exact ih

theorem SpellsName.isTight {t name : Text} (h : SpellsName t name) : t.IsTight := by
  induction h with
  | single hspells => exact hspells.isTight
  | @qualified s _ g g' t _ hspells _ _ _ ih =>
      have htight := hspells.isTight.append (g ++ '.' :: g') ih
      simpa using htight

namespace TableBody

variable {s t u r name body : Text} {x : Text × Text}

theorem name?_of_segment?_eq_none (h : segment? t = none) : name? t = none := by
  rw [name?]
  split
  · rfl
  · rename_i hsome
    cases h.symm.trans hsome

/-- A point behind a segment leads to the next one. -/
theorem name?_of_point (h : segment? t = some x) (hpoint : x.2.trimStart = '.' :: r) :
    name? t = name? r.trimStart := by
  rw [name?]
  split
  · rename_i hnone
    cases h.symm.trans hnone
  · rename_i hsome
    obtain rfl := Option.some.inj (h.symm.trans hsome)
    split
    · rename_i hrest
      rw [(List.cons.inj (hpoint.symm.trans hrest)).2]
    · rename_i hrest
      exact absurd hpoint (hrest r)

theorem name?_of_not_point (h : segment? t = some x) (hpoint : ∀ r, x.2.trimStart ≠ '.' :: r) :
    name? t = some x := by
  rw [name?]
  split
  · rename_i hnone
    cases h.symm.trans hnone
  · rename_i hsome
    obtain rfl := Option.some.inj (h.symm.trans hsome)
    split
    · rename_i hrest
      exact absurd hrest (hpoint _)
    · rfl

/-- A spelling is read as a segment, whatever follows that is not part of it. -/
theorem segment?_append (h : Spells t name) (hu : u.startsIdentifier = false) :
    segment? (t ++ u) = some (name, u) := by
  have hraw : rawSegment? (t ++ u) = some (name, u) := by
    cases h with
    | bare hne hbare =>
        have htake := hbare.takeWhile_append hu
        have hdrop := hbare.dropWhile_append hu
        cases t with
        | nil => exact absurd rfl hne
        | cons c rest =>
            have hquote := hbare.closingQuote?_of_mem List.mem_cons_self
            rw [List.cons_append] at htake hdrop ⊢
            rw [rawSegment?]
            simp only [hquote, htake, hdrop]
    | quoted hclose _ hname =>
        rw [List.cons_append, List.append_assoc, List.singleton_append, rawSegment?, hclose]
        exact splitOnce_append hname u
  rw [segment?, hraw, Option.filter_some, if_pos]
  simp [h.ne_nil]

/-- What is read as a segment is a spelling. -/
theorem exists_spells (h : segment? t = some (name, u)) : ∃ s, t = s ++ u ∧ Spells s name := by
  obtain ⟨hraw, hname⟩ := Option.filter_eq_some_iff.1 h
  have hne : name ≠ [] := by simpa using hname
  cases t with
  | nil => exact nomatch hraw
  | cons c rest =>
      rw [rawSegment?] at hraw
      split at hraw
      · rename_i close hclose
        refine ⟨c :: (name ++ [close]), ?_, .quoted hclose hne (not_mem_of_splitOnce hraw)⟩
        simpa using splitOnce_eq_append hraw
      · obtain ⟨rfl, rfl⟩ := Prod.mk.inj (Option.some.inj hraw)
        exact ⟨_, List.takeWhile_append_dropWhile.symm,
          .bare hne fun d hd => List.mem_takeWhile_imp hd⟩

theorem name?_append (h : SpellsName t name) (hu : u.startsIdentifier = false)
    (hpoint : ∀ r, u.trimStart ≠ '.' :: r) : name? (t ++ u) = some (name, u) := by
  induction h with
  | single hspells => exact name?_of_not_point (segment?_append hspells hu) hpoint
  | @qualified s qualifier g g' t name hspells hg hg' hrest ih =>
      have hnext : Text.startsIdentifier (g ++ '.' :: (g' ++ (t ++ u))) = false :=
        hg.startsIdentifier_append (.inr (by rfl))
      have hsegment := segment?_append hspells hnext
      have hdot : (g ++ '.' :: (g' ++ (t ++ u))).trimStart = '.' :: (g' ++ (t ++ u)) := by
        rw [hg.trimStart_append]
        rfl
      have htight : (t ++ u).startsBlank = false := by
        rw [startsBlank_append hrest.isTight.ne_nil, hrest.isTight.startsBlank]
      have hname := name?_of_point hsegment hdot
      rw [hg'.trimStart_append, trimStart_of_startsBlank_eq_false htight, ih] at hname
      simpa using hname

/-- What is read as a name is the spelling of one. -/
theorem exists_spellsName (h : name? t = some (name, u)) :
    ∃ s, t = s ++ u ∧ SpellsName s name := by
  fun_induction name? t with
  | case1 => exact nomatch h
  | case2 t first rest hx next hpoint ih =>
      obtain ⟨s, hs, hspells⟩ := exists_spells hx
      obtain ⟨g, hg, hsplit⟩ := exists_gap_append_trimStart rest
      obtain ⟨g', hg', hsplit'⟩ := exists_gap_append_trimStart next
      obtain ⟨w, hw, hrest⟩ := ih h
      refine ⟨_, ?_, .qualified hspells hg hg' hrest⟩
      rw [hs, hsplit, hpoint, hsplit', hw]
      simp
  | case3 t last rest hx _ =>
      obtain ⟨s, hs, hspells⟩ := exists_spells hx
      obtain ⟨rfl, rfl⟩ := Prod.mk.inj (Option.some.inj h)
      exact ⟨s, hs, .single hspells⟩

/-- The spellings of a name are the texts that are read as the name and nothing else. -/
theorem name?_eq_some_nil_iff : name? t = some (name, []) ↔ SpellsName t name := by
  constructor
  · intro h
    obtain ⟨s, rfl, hspells⟩ := exists_spellsName h
    rwa [List.append_nil]
  · intro h
    simpa using name?_append (u := []) h rfl nofun

/-- A name is no `IF NOT EXISTS`: what follows its first identifier is no word. -/
theorem behindIfNotExists_append (h : Spells t name) (hu : u.startsIdentifier = false)
    (htrim : Text.startsIdentifier u.trimStart = false) :
    behindIfNotExists (t ++ u) = t ++ u := by
  have hnot : skip? .notWord u.trimStart = none := by
    rw [skip?, Keyword.strip?_of_startsIdentifier _ htrim, Option.map_none]
  have hif : skip? .ifWord (t ++ u) = none ∨ skip? .ifWord (t ++ u) = some u.trimStart := by
    cases h with
    | bare _ hbare =>
        rw [skip?, Keyword.strip?_append hbare hu]
        split
        · exact .inr rfl
        · exact .inl rfl
    | @quoted c close _ hclose _ _ =>
        have hstart : Text.startsIdentifier (c :: (name ++ [close]) ++ u) = false :=
          (isIdentifierChar_of_closingQuote? hclose).1
        exact .inl (by rw [skip?, Keyword.strip?_of_startsIdentifier _ hstart, Option.map_none])
  rcases hif with hnone | hsome
  · simp [behindIfNotExists, hnone]
  · simp [behindIfNotExists, hsome, hnot]

/-- The spelling of a name is no `IF NOT EXISTS` either: that is decided by its first identifier. -/
theorem behindIfNotExists_name_append (h : SpellsName t name) (hu : u.startsIdentifier = false)
    (htrim : Text.startsIdentifier u.trimStart = false) :
    behindIfNotExists (t ++ u) = t ++ u := by
  cases h with
  | single hs => exact behindIfNotExists_append hs hu htrim
  | @qualified s _ g g' t name hs hg _ _ =>
      have hdot : Text.startsIdentifier (g ++ '.' :: (g' ++ (t ++ u))) = false :=
        hg.startsIdentifier_append (.inr (by rfl))
      have hdottrim : Text.startsIdentifier (g ++ '.' :: (g' ++ (t ++ u))).trimStart = false := by
        rw [hg.trimStart_append]
        rfl
      simpa using behindIfNotExists_append hs hdot hdottrim

/-- Blanks in front of a chunk are not part of it. -/
theorem ofChunk_gap_append {g : Text} (hg : IsGap g) (t : Text) :
    ofChunk (g ++ t) = ofChunk t := by
  rw [ofChunk, hg.trimStart_append, ofChunk]

/-- A spelling of a name with a group behind it is read as the table of that name. -/
theorem ofChunk_append (h : SpellsName t name) {g : Text} (hg : IsGap g) (hbody : Balanced body)
    (u : Text) : ofChunk (t ++ (g ++ '(' :: (body ++ ')' :: u))) =
      .ok ⟨name, declarationsOf body⟩ := by
  have hopen : Text.startsIdentifier (g ++ '(' :: (body ++ ')' :: u)) = false :=
    hg.startsIdentifier_append (.inr (by rfl))
  have htrim : (g ++ '(' :: (body ++ ')' :: u)).trimStart = '(' :: (body ++ ')' :: u) := by
    rw [hg.trimStart_append]
    rfl
  have hname := name?_append h hopen fun r hr => by
    rw [htrim] at hr
    exact absurd (List.cons.inj hr).1 (by decide)
  have hgroup : (g ++ '(' :: (body ++ ')' :: u)).dropWhile (· != '(') =
      '(' :: (body ++ ')' :: u) := by
    refine dropWhile_append_of_head? (hg.bne rfl) fun c hc => ?_
    obtain rfl := Option.some.inj hc
    rfl
  have hstart : Text.startsBlank (t ++ (g ++ '(' :: (body ++ ')' :: u))) = false := by
    rw [startsBlank_append h.isTight.ne_nil, h.isTight.startsBlank]
  rw [ofChunk, trimStart_of_startsBlank_eq_false hstart,
    behindIfNotExists_name_append h hopen (by rw [htrim]; rfl), hname]
  simp only [hgroup, hbody.groupBody?_append]

end TableBody
end DdlDiagram
