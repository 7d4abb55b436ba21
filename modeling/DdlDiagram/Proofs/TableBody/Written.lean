import DdlDiagram.Proofs.TableBody.Names

/-!
# Written tables

A table is written down as a spelling of its name, a `(`, its declarations with commas between
them, and a `)`. Reading undoes this whatever stands behind the table, with `IF NOT EXISTS` in
front of it or not. Of a declaration no more is asked than that the readers can tell where it ends:
it closes what it opens and has no comma at its top level.
-/

namespace DdlDiagram

namespace Nesting

variable {cut cut' : Char → Bool} {part t : Text}

/-- Behind a balanced part the same places are at top level as in the rest on its own. -/
theorem HasNoCut.of_append (hpart : Uncut cut' part) (h : HasNoCut cut (part ++ t)) :
    HasNoCut cut t := by
  intro before c after hsplit htop
  apply h (part ++ before) c after
  · rw [hsplit, List.append_assoc]
  · rw [afterText_append, top, hpart.afterText]
    exact htop

/-- A balanced text is uncut if none of its characters at top level is a cut. -/
theorem Uncut.of_hasNoCut (h : Uncut cut' t) (hcut : HasNoCut cut t) : Uncut cut t := by
  induction h with
  | nil => exact .nil cut
  | @char cut' c t hquote hopen hclose _ _ ih =>
      have hpart : Balanced [c] := .char hquote hopen hclose rfl (.nil _)
      exact .char hquote hopen hclose (hcut [] c t rfl rfl) (ih (hcut.of_append hpart))
  | @run cut' q inner t hquote hinner _ ih =>
      have hpart : Balanced (q :: (inner ++ [q])) := .run hquote hinner (.nil _)
      have hrest : HasNoCut cut (q :: (inner ++ [q]) ++ t) := by simpa using hcut
      exact .run hquote hinner (ih (hrest.of_append hpart))
  | @group cut' body t hbody _ _ ih =>
      have hpart : Balanced ('(' :: (body ++ [')'])) := .parenthesized hbody
      have hrest : HasNoCut cut ('(' :: (body ++ [')']) ++ t) := by simpa using hcut
      exact .group hbody (ih (hrest.of_append hpart))

/-- Plain characters that are cuts do not stand at the top level of an uncut text. -/
theorem Uncut.hasNoCut (h : Uncut cut t)
    (hplain : ∀ c, cut c = true → isQuote c = false ∧ c ≠ '(' ∧ c ≠ ')') : HasNoCut cut t := by
  have hparen : cut ')' = false := by
    by_contra hparen
    exact (hplain ')' (Bool.not_eq_false _ ▸ hparen)).2.2 rfl
  exact (pieces_eq_singleton_iff hplain).1 (h.pieces_eq hparen)

end Nesting

namespace TableBody

open Nesting Text

variable {s t u w name ifWord notWord existsWord : Text} {declarations : List Text} {k : Keyword}

/-- Texts that can stand between the commas of a body. -/
structure IsEntry (t : Text) : Prop where
  ne_nil : t ≠ []
  /-- No blanks stand around it. -/
  trim_eq : t.trim = t
  /-- Its parentheses match outside of its quoted runs, which are closed. -/
  balanced : Balanced t
  /-- A comma in it is quoted or in parentheses. -/
  hasNoCut : HasNoCut (· == ',') t

theorem isEntry_of_isTight (ht : t.IsTight) (h : Uncut (· == ',') t) : IsEntry t where
  ne_nil := ht.ne_nil
  trim_eq := ht.trim_eq
  balanced := h.balanced
  hasNoCut := h.hasNoCut fun c hc => by
    obtain rfl := beq_iff_eq.1 hc
    decide

theorem IsEntry.uncut (h : IsEntry t) : Uncut (· == ',') t := h.balanced.of_hasNoCut h.hasNoCut

/-- The declarations of a body are the texts that were written into it. -/
theorem declarationsOf_join (h : ∀ declaration ∈ declarations, IsEntry declaration) :
    declarationsOf (join [','] declarations) = declarations := by
  by_cases hne : declarations = []
  · subst hne
    rfl
  · have hparts : (join [','] declarations).partsBetween ',' = declarations :=
      Uncut.pieces_join ',' rfl rfl (by decide) rfl hne
        fun declaration hmem => (h declaration hmem).uncut
    have htrim : declarations.map trim = declarations :=
      (List.map_congr_left fun declaration hmem => (h declaration hmem).trim_eq).trans
        (List.map_id declarations)
    rw [declarationsOf, hparts, htrim, List.filter_eq_self]
    intro declaration hmem
    simpa using (h declaration hmem).ne_nil

/-- A written body is balanced. -/
theorem balanced_join (h : ∀ declaration ∈ declarations, IsEntry declaration) :
    Balanced (join [','] declarations) := by
  have hcomma : Balanced [','] := .of_all (by decide)
  exact hcomma.join fun declaration hmem => (h declaration hmem).balanced

/-- A keyword is skipped with the space behind it. -/
theorem skip?_word (hw : k.is w = true) (ht : t.startsBlank = false) :
    skip? k (w ++ ' ' :: t) = some t := by
  have htrim : trimStart (' ' :: t) = t := by
    rw [trimStart_cons_of_isBlank rfl, trimStart_of_startsBlank_eq_false ht]
  rw [skip?, Keyword.strip?_append (Keyword.isBare_of_is hw) rfl, if_pos hw, Option.map_some, htrim]

theorem startsBlank_keyword_append (hw : k.is w = true) (t : Text) :
    (w ++ t).startsBlank = false := by
  have htight := (Keyword.isBare_of_is hw).isTight (Keyword.ne_nil_of_is hw)
  rw [startsBlank_append htight.ne_nil, htight.startsBlank]

/-- The words `IF NOT EXISTS` are taken off a text in any case. -/
theorem behindIfNotExists_words (hif : Keyword.ifWord.is ifWord = true)
    (hnot : Keyword.notWord.is notWord = true) (hexists : Keyword.existsWord.is existsWord = true)
    (ht : t.startsBlank = false) :
    behindIfNotExists (ifWord ++ ' ' :: (notWord ++ ' ' :: (existsWord ++ ' ' :: t))) = t := by
  rw [behindIfNotExists, skip?_word hif (startsBlank_keyword_append hnot _)]
  simp [skip?_word hnot (startsBlank_keyword_append hexists _), skip?_word hexists ht]

/-- A chunk is read from behind the words `IF NOT EXISTS`. -/
theorem ofChunk_congr (h : behindIfNotExists t.trimStart = behindIfNotExists u.trimStart) :
    ofChunk t = ofChunk u := by
  rw [ofChunk, ofChunk, h]

/-- A table written down, with its name as it is spelled and with what stands behind it. -/
def written (spelling : Text) (declarations : List Text) (tail : Text) : Text :=
  spelling ++ " (".toList ++ join [','] declarations ++ ")".toList ++ tail

theorem written_eq (spelling : Text) (declarations : List Text) (tail : Text) :
    written spelling declarations tail =
      spelling ++ ([' '] ++ '(' :: (join [','] declarations ++ ')' :: tail)) := by
  simp [written]

/-- The words `IF NOT EXISTS` are told from the name of a written table. -/
theorem behindIfNotExists_written (hs : SpellsName s name) (declarations : List Text)
    (tail : Text) : behindIfNotExists (written s declarations tail) =
      written s declarations tail := by
  rw [written_eq]
  exact behindIfNotExists_name_append hs rfl rfl

theorem startsBlank_written (hs : SpellsName s name) (declarations : List Text) (tail : Text) :
    (written s declarations tail).startsBlank = false := by
  rw [written_eq, startsBlank_append hs.isTight.ne_nil, hs.isTight.startsBlank]

/-- A table that was written down is read back, and so it is behind `IF NOT EXISTS` in any case. -/
theorem ofChunk_written (hs : SpellsName s name)
    (hentries : ∀ declaration ∈ declarations, IsEntry declaration) (tail : Text) :
    ofChunk (written s declarations tail) = .ok ⟨name, declarations⟩ ∧
      ∀ g ifWord notWord existsWord, IsGap g → Keyword.ifWord.is ifWord = true →
        Keyword.notWord.is notWord = true → Keyword.existsWord.is existsWord = true →
        ofChunk (g ++ (ifWord ++ ' ' :: (notWord ++ ' ' :: (existsWord ++ ' ' ::
          written s declarations tail)))) = .ok ⟨name, declarations⟩ := by
  have hread : ofChunk (written s declarations tail) = .ok ⟨name, declarations⟩ := by
    rw [written_eq, ofChunk_append hs isGap_space (balanced_join hentries),
      declarationsOf_join hentries]
  refine ⟨hread, ?_⟩
  intro g ifWord notWord existsWord hg hif hnot hexists
  have hstart := startsBlank_written hs declarations tail
  rw [ofChunk_gap_append hg, ← hread]
  apply ofChunk_congr
  rw [trimStart_of_startsBlank_eq_false (startsBlank_keyword_append hif _),
    behindIfNotExists_words hif hnot hexists hstart, trimStart_of_startsBlank_eq_false hstart,
    behindIfNotExists_written hs]

/-- A name behind a qualifier that is a keyword, with parentheses, a point and a quote in it. -/
def oddSpelling : Text := "if.[a.(`b]".toList

/-- A declaration with commas in parentheses and in quotes, and an odd parenthesis in quotes. -/
def oddEntry : Text := "x DECIMAL(10,(2)) DEFAULT ',)'".toList

theorem spellsName_oddSpelling : SpellsName oddSpelling "a.(`b".toList := by
  have hbare : IsBare "if".toList := Keyword.isBare_of_is (k := .ifWord) (by decide)
  have hqualifier : Spells "if".toList "if".toList := .bare (by decide) hbare
  have hlast : Spells ('[' :: ("a.(`b".toList ++ [']'])) "a.(`b".toList :=
    .quoted rfl (by decide) (by decide)
  exact .qualified hqualifier isGap_nil isGap_nil (.single hlast)

theorem isEntry_oddEntry : IsEntry oddEntry := by
  have htight : oddEntry.IsTight := ⟨by decide, by decide, by decide +kernel⟩
  have hnested : Balanced ('(' :: (['2'] ++ [')'])) := .parenthesized (.of_all (by decide))
  have hgroup : Balanced ("10,".toList ++ '(' :: (['2'] ++ [')'])) :=
    (Uncut.of_all (by decide)).append hnested
  have hfront : Uncut (· == ',') "x DECIMAL".toList := .of_all (by decide)
  have hback : Uncut (· == ',') " DEFAULT ".toList := .of_all (by decide)
  have hliteral : Uncut (· == ',') ('\'' :: (",)".toList ++ ['\''])) :=
    .run rfl (by decide) (.nil _)
  exact isEntry_of_isTight htight
    (hfront.append (hgroup.parenthesized.append (hback.append hliteral)))

theorem ofChunk_written_odd :
    ofChunk (" If nOT EXISTS ".toList ++ written oddSpelling [oddEntry, "y".toList] "' ((".toList) =
      .ok ⟨"a.(`b".toList, [oddEntry, "y".toList]⟩ := by
  have hentry : IsEntry ['y'] := isEntry_of_isTight (isTight_singleton rfl) (.of_all (by decide))
  have hentries : ∀ declaration ∈ [oddEntry, "y".toList], IsEntry declaration := by
    simpa using ⟨isEntry_oddEntry, hentry⟩
  obtain ⟨-, hread⟩ := ofChunk_written spellsName_oddSpelling hentries "' ((".toList
  exact hread [' '] "If".toList "nOT".toList "EXISTS".toList isGap_space (by decide) (by decide)
    (by decide)

end TableBody
end DdlDiagram
