import DdlDiagram.Proofs.Declaration.KeyClauses
import DdlDiagram.Proofs.Nesting.Seam

/-!
# Groups with and without a blank in front

A group can be the end of a word or the start of the next one. Where the reader looks for a group
it takes both: the columns of a key are found in either word, the table of a reference ends where
its group starts, and the parameters of a type are put back behind it. A parenthesis in a quoted
name is the exception, since the group of a word is looked for at its first parenthesis.
-/

namespace DdlDiagram

open Nesting

variable {front word body rest tail : Text} {others : List Text}

/-- `(body)` and the rest of a line. -/
def groupText (body rest : Text) : Text := '(' :: (body ++ ')' :: rest)

/-- A part of a line that ends in a blank, and a word behind it. Nothing is open behind either. -/
structure EndsInWord (front word : Text) : Prop where
  front_closed : top.afterText front = top
  blank : front.getLast?.any isBlank = true
  words_eq : word.words = [word]
  word_closed : top.afterText word = top

namespace Text

/-- A word does not end in a blank. -/
theorem trimEnd_of_words_eq_singleton (h : words word = [word])
    (hclosed : top.afterText word = top) : word.trimEnd = word := by
  rw [trimEnd_eq_self_iff]
  intro c hlast
  by_contra hblank
  have hc : isBlank c = true := Bool.not_eq_false _ ▸ hblank
  obtain ⟨s, rfl⟩ := List.getLast?_eq_some_iff.1 hlast
  have htop := (atTop_iff_of_isBlank hc).1 (atTop_of_afterText hc hclosed)
  exact hblank (hasNoCut_of_words_eq_singleton h s c [] rfl htop)

theorem pieces_groupText {pieces' : List Text} (hbody : Balanced body)
    (hrest : pieces isBlank top rest = tail :: pieces') :
    pieces isBlank top (groupText body rest) = groupText body tail :: pieces' := by
  have hsplit : ∀ t, groupText body t = '(' :: (body ++ [')']) ++ t := by simp [groupText]
  rw [hsplit, (Uncut.parenthesized hbody).pieces_append rfl, hrest, prepend_head, hsplit]

/-- A group and the piece behind it belong to the word in front of them. -/
theorem words_append_groupText {pieces' : List Text} (hword : pieces isBlank top word = [word])
    (hclosed : top.afterText word = top) (hbody : Balanced body)
    (hrest : pieces isBlank top rest = tail :: pieces') :
    words (word ++ groupText body rest) =
      (word ++ groupText body tail) :: pieces'.filter (!·.isEmpty) := by
  rw [words, pieces_append_of_eq hword, hclosed, pieces_groupText hbody hrest, prepend_head,
    List.filter_cons_of_pos (by simp [groupText])]

/-- The words of a line that has a group directly behind a word, and of the same line with a blank
between them. -/
theorem exists_words_groupText (h : EndsInWord front word) (hbody : Balanced body) (rest : Text) :
    ∃ tail others,
      words (front ++ (word ++ groupText body rest)) =
        words front ++ (word ++ groupText body tail) :: others ∧
      words (front ++ (word ++ ' ' :: groupText body rest)) =
        words front ++ word :: groupText body tail :: others ∧
      (rest = [] ∨ rest.startsBlank = true → others = words rest) := by
  obtain ⟨tail, pieces', hrest⟩ := List.exists_cons_of_ne_nil (pieces_ne_nil isBlank top rest)
  have hpieces := (words_eq_singleton_iff.1 h.words_eq).2
  have hnil : pieces isBlank top [] = [[]] := rfl
  have hspace : (top.afterText word).atTop ' ' = true := by
    rw [h.word_closed]
    rfl
  refine ⟨tail, pieces'.filter (!·.isEmpty), ?_, ?_, fun hend => ?_⟩
  · rw [words_append_of_endsBlank h.front_closed h.blank,
      words_append_groupText hpieces h.word_closed hbody hrest]
  · have hgroup := words_append_groupText hnil rfl hbody hrest
    rw [words_append_of_endsBlank h.front_closed h.blank, words_append_cons hspace isBlank_space,
      h.words_eq]
    exact congrArg (words front ++ word :: ·) hgroup
  · have htail : tail = [] := by
      rcases hend with rfl | hblank
      · exact (List.cons.inj (hrest.symm.trans hnil)).1
      · cases rest with
        | nil => cases hblank
        | cons c rest =>
            have hcut : pieces isBlank top (c :: rest) = [] :: pieces isBlank top rest :=
              pieces_append_cons (t := []) ((atTop_iff_of_isBlank hblank).2 rfl) hblank rest
            exact (List.cons.inj (hrest.symm.trans hcut)).1
    rw [words, hrest, htail, List.filter_cons_of_neg (by simp)]

theorem splitGroup_append_groupText (hparen : '(' ∉ word) (htrim : word.trimEnd = word)
    (hbody : Balanced body) (tail : Text) :
    splitGroup (word ++ groupText body tail) = (word, some body) :=
  splitGroup_append hparen htrim hbody tail

end Text

namespace Declaration

variable {first second : Keyword} {words modifiers : List Text}

/-- A word with a parenthesis is no keyword. -/
theorem is_append_groupText (k : Keyword) (word body tail : Text) :
    k.is (word ++ groupText body tail) = false :=
  k.is_eq_false_of_mem (c := '(') (by simp [groupText]) (by decide)

/-- The columns of a key stand in the group of `KEY` or of the word behind it. -/
theorem columnsOfKey?_groupText (hword : Keyword.key.is word = true) (hbody : Balanced body)
    (tail : Text) (others : List Text) :
    columnsOfKey? ((word ++ groupText body tail) :: others) = some (body.identifiers, others) ∧
      columnsOfKey? (word :: groupText body tail :: others) = some (body.identifiers, others) := by
  have hbare := Keyword.isBare_of_is hword
  have hparen : '(' ∉ word := hbare.not_mem (by decide)
  have htrim := (hbare.isTight (Keyword.ne_nil_of_is hword)).trimEnd
  have hattached := Text.splitGroup_append_groupText hparen htrim hbody tail
  have hapart : Text.splitGroup (groupText body tail) = ([], some body) :=
    Text.splitGroup_append_groupText List.not_mem_nil rfl hbody tail
  constructor
  · rw [columnsOfKey?]
    simp only [Text.beforeGroup, Text.group?, hattached, hword, if_true]
  · rw [columnsOfKey?]
    simp only [Text.beforeGroup, Text.group?, Text.splitGroup_of_not_mem hparen, hword, if_true,
      groupWithin?, hapart]
    rfl

/-- The table of a reference is the same with its columns as a part of the word or behind it. -/
theorem target?_append_groupText (hparen : '(' ∉ word) (htrim : word.trimEnd = word)
    (hbody : Balanced body) (words : List Text) (tail : Text) (others : List Text) :
    target? (words ++ word :: groupText body tail :: others) =
      target? (words ++ (word ++ groupText body tail) :: others) := by
  have hword : word.beforeGroup = word := congrArg Prod.fst (Text.splitGroup_of_not_mem hparen)
  have hattached : (word ++ groupText body tail).beforeGroup = word :=
    congrArg Prod.fst (Text.splitGroup_append_groupText hparen htrim hbody tail)
  have hgroup : (groupText body tail).beforeGroup = [] :=
    congrArg Prod.fst (Text.splitGroup_append_groupText List.not_mem_nil rfl hbody tail)
  match words with
  | [] =>
      have hnone : target? (word :: groupText body tail :: others) = none := by
        simp [target?, hgroup, tableName]
      rw [List.nil_append, List.nil_append, hnone, target?_eq_none (is_append_groupText _ _ _ _)]
  | [_] => simp only [List.cons_append, List.nil_append, target?, hword, hattached]
  | _ :: _ :: _ => rfl

theorem firstTarget?_append_groupText (hparen : '(' ∉ word) (htrim : word.trimEnd = word)
    (hbody : Balanced body) (words : List Text) (tail : Text) (others : List Text) :
    firstTarget? (words ++ word :: groupText body tail :: others) =
      firstTarget? (words ++ (word ++ groupText body tail) :: others) := by
  have htarget := target?_append_groupText hparen htrim hbody
  induction words with
  | nil =>
      have hgroup : target? (groupText body tail :: others) = none :=
        target?_eq_none (is_append_groupText _ [] _ _) others
      have hword := htarget [] tail others
      rw [List.nil_append, List.nil_append] at hword ⊢
      rw [firstTarget?, firstTarget?, firstTarget?, hword, hgroup, Option.none_or]
  | cons w rest ih =>
      have hw := htarget (w :: rest) tail others
      rw [List.cons_append, List.cons_append] at hw ⊢
      rw [firstTarget?, firstTarget?, hw, ih]

/-- A word in front of a group is no neighbour of what stands behind it, and what stands in front
of it is one only if the two are the keywords. -/
theorem haveNeighbours_append_groupText (words : List Text) (tail : Text) (others : List Text)
    (hpair : ∀ w ∈ words.getLast?, first.is w = true → second.is word = false) :
    haveNeighbours first second (words ++ word :: groupText body tail :: others) =
      haveNeighbours first second (words ++ (word ++ groupText body tail) :: others) := by
  have hgroup : ∀ k : Keyword, k.is (groupText body tail) = false :=
    fun k => is_append_groupText k [] body tail
  have hattached : ∀ k : Keyword, k.is (word ++ groupText body tail) = false :=
    fun k => is_append_groupText k word body tail
  have hword : haveNeighbours first second (words ++ [word]) =
      haveNeighbours first second words := by
    induction words with
    | nil => simp [haveNeighbours]
    | cons w rest ih =>
        have hrest := ih fun v hv => hpair v (by rw [List.getLast?_cons, hv]; rfl)
        have hnext : (first.is w && (rest ++ [word]).head?.any second.is) =
            (first.is w && rest.head?.any second.is) := by
          cases rest with
          | nil =>
              cases hw : first.is w with
              | false => rfl
              | true => simp [hpair w rfl hw]
          | cons v rest => rfl
        rw [List.cons_append, haveNeighbours, haveNeighbours, hnext, hrest]
  have hsplit : words ++ word :: groupText body tail :: others =
      (words ++ [word]) ++ groupText body tail :: others := by simp
  rw [hsplit, haveNeighbours_append_cons (hgroup _) (hgroup _),
    haveNeighbours_append_cons (hattached _) (hattached _), hword]

/-- The words of a line in front of a word that takes a group, and the rest of the line behind the
group. The word is the `KEY` of a key clause; or it stands behind the columns of a foreign key, as
its table does; or it is a modifier of a column, but `NULL` or `KEY` only as the table of a
reference; or it is the type of a column, and the group is a word without a further one behind. -/
inductive TakesGroup : List Text → Text → Text → Prop where
  | key {k : Keyword} {opening : List Text} {start word : Text} (rest : Text) :
      IsOpening opening → k ∈ [Keyword.primary, .foreign] → k.is start = true →
      Keyword.key.is word = true → TakesGroup (opening ++ [start]) word rest
  | foreignKey {opening keys columns behind : List Text} {start word : Text} (rest : Text) :
      IsOpening opening → Keyword.foreign.is start = true →
      columnsOfKey? keys = some (columns, behind) → '(' ∉ word →
      TakesGroup (opening ++ start :: keys) word rest
  | modifier {name rawType word : Text} {modifiers : List Text} (rest : Text) :
      (∀ k ∈ clauseKeywords, k.is name.beforeGroup = false) → '(' ∉ word →
      (modifiers.getLast?.any Keyword.references.is = true ∨
        ∀ k ∈ [Keyword.null, .key], k.is word = false) →
      TakesGroup (name :: rawType :: modifiers) word rest
  | type {name rest : Text} (word : Text) :
      (∀ k ∈ clauseKeywords, k.is name.beforeGroup = false) →
      (rest = [] ∨ rest.startsBlank = true) →
      (∀ w ∈ rest.words.head?, w.head? ≠ some '(') → TakesGroup [name] word rest

/-- A modifier is the same with a group behind it, whatever it says about the column. -/
theorem columnWith_append_groupText (hparen : '(' ∉ word) (htrim : word.trimEnd = word)
    (hbody : Balanced body) (hword : modifiers.getLast?.any Keyword.references.is = true ∨
      ∀ k ∈ [Keyword.null, .key], k.is word = false) (name rawType tail : Text)
    (others : List Text) :
    columnWith name rawType (modifiers ++ word :: groupText body tail :: others) =
      columnWith name rawType (modifiers ++ (word ++ groupText body tail) :: others) := by
  have hpair : ∀ first second : Keyword, second ∈ [Keyword.null, .key] →
      first.spelling.map Char.toLower ≠ Keyword.references.spelling.map Char.toLower →
      ∀ w ∈ modifiers.getLast?, first.is w = true → second.is word = false := by
    intro first second hsecond hapart w hw hfirst
    rcases hword with hreference | hother
    · rw [hw, Option.any_some, Keyword.is_eq_false_of_is hfirst hapart] at hreference
      cases hreference
    · exact hother second hsecond
  rw [columnWith, columnWith, firstTarget?_append_groupText hparen htrim hbody,
    haveNeighbours_append_groupText _ _ _ (hpair .notWord .null (by decide) (by decide)),
    haveNeighbours_append_groupText _ _ _ (hpair .primary .key (by decide) (by decide))]

/-- A word that takes a group makes the same declaration with it and in front of it. -/
theorem TakesGroup.ofWords?_eq (h : TakesGroup words word rest) (hne : word ≠ [])
    (htrim : word.trimEnd = word) (hbody : Balanced body)
    (hend : rest = [] ∨ rest.startsBlank = true → others = rest.words)
    (tail : Text) : ofWords? (words ++ word :: groupText body tail :: others) =
      ofWords? (words ++ (word ++ groupText body tail) :: others) := by
  cases h with
  | @key k opening start _ _ hopening hk hstart hword =>
      obtain ⟨hattached, hapart⟩ := columnsOfKey?_groupText hword hbody tail others
      have hsame : keyClause? start (word :: groupText body tail :: others) =
          keyClause? start ((word ++ groupText body tail) :: others) := by
        simp only [keyClause?, primaryKey?, foreignKey?, hattached, hapart]
      rw [List.append_assoc, List.append_assoc]
      exact hopening.ofWords?_congr hk hstart hsame
  | @foreignKey opening keys columns behind start _ _ hopening hstart hkeys hparen =>
      have hprimary : Keyword.primary.is start = false :=
        Keyword.is_eq_false_of_is hstart (by decide)
      have hsame : keyClause? start (keys ++ word :: groupText body tail :: others) =
          keyClause? start (keys ++ (word ++ groupText body tail) :: others) := by
        simp only [keyClause?, hprimary, Bool.false_eq_true, if_false, foreignKey?,
          columnsOfKey?_append hkeys, target?_append_groupText hparen htrim hbody]
      rw [List.append_assoc, List.append_assoc]
      exact hopening.ofWords?_congr (by decide) hstart hsame
  | @modifier name rawType _ modifiers _ hname hparen hword =>
      obtain ⟨type, rest', hsplit, hcolumn⟩ := exists_column?_append name rawType modifiers
      have hrest' : rest'.getLast?.any Keyword.references.is = true ∨
          ∀ k ∈ [Keyword.null, .key], k.is word = false := by
        refine hword.imp_left fun hlast => ?_
        obtain rfl | ⟨parameters, rfl⟩ := hsplit
        · exact hlast
        · cases rest' with
          | nil =>
              rw [List.getLast?_singleton, Option.any_some,
                Keyword.references.is_eq_false_of_mem List.mem_cons_self (by decide)] at hlast
              cases hlast
          | cons v rest' => rwa [List.getLast?_cons_cons] at hlast
      have hhead : ∀ t : Text, (word ++ t).head? ≠ some '(' := by
        intro t hhead
        rw [List.head?_append_of_ne_nil _ hne] at hhead
        exact hparen (List.mem_of_mem_head? hhead)
      have hword' := hhead []
      rw [List.append_nil] at hword'
      rw [List.cons_append, List.cons_append, List.cons_append, List.cons_append,
        ofWords?_of_not_clause hname, ofWords?_of_not_clause hname, hcolumn _ _ hword',
        hcolumn _ _ (hhead _), columnWith_append_groupText hparen htrim hbody hrest']
  | @type name _ _ hname hrest hnext =>
      have hothers : ∀ w, others.head? = some w → w.head? ≠ some '(' := by
        rw [hend hrest]
        exact hnext
      rw [List.singleton_append, List.singleton_append, ofWords?_of_not_clause hname,
        ofWords?_of_not_clause hname, column?_of_head? hothers]
      rfl

/-- Where a word takes a group, a blank between the two makes no difference. -/
theorem ofText_space_groupText (hword : EndsInWord front word) (hbody : Balanced body)
    (h : TakesGroup front.words word rest) :
    ofText (front ++ (word ++ ' ' :: groupText body rest)) =
      (ofText (front ++ (word ++ groupText body rest))).withText
        (front ++ (word ++ ' ' :: groupText body rest)) := by
  obtain ⟨tail, others, hattached, hapart, hend⟩ :=
    Text.exists_words_groupText hword hbody rest
  have htrim := Text.trimEnd_of_words_eq_singleton hword.words_eq hword.word_closed
  have hne := (Text.words_eq_singleton_iff.1 hword.words_eq).1
  rw [ofText_eq_withText_iff, hattached, hapart]
  exact h.ofWords?_eq hne htrim hbody hend tail

/-- A list with a quoted parenthesis and a group in it. -/
def mixedList : Text := "x, ')' (y)".toList

theorem balanced_mixedList : Balanced mixedList := by
  have hsplit : mixedList =
      "x, ".toList ++ '\'' :: ([')'] ++ '\'' :: ' ' :: '(' :: (['y'] ++ ')' :: [])) := rfl
  have hgroup : Balanced (' ' :: '(' :: (['y'] ++ ')' :: [])) :=
    .char rfl (by decide) (by decide) rfl (.group (.of_all (by decide)) (.nil _))
  rw [hsplit]
  exact .append (.of_all (by decide)) (.run rfl (by decide) hgroup)

/-- A named foreign key with the name of an index, up to its table. -/
def indexedOpening : Text := "Constraint fk foreign KEY idx (a) REFERENCES ".toList

theorem ofText_space_groupText_mixedList :
    EndsInWord indexedOpening "s.\x60order items\x60".toList ∧ Balanced mixedList ∧
    TakesGroup indexedOpening.words "s.\x60order items\x60".toList " ON DELETE SET NULL".toList ∧
    ofText (indexedOpening ++ ("s.\x60order items\x60".toList ++
        ' ' :: groupText mixedList " ON DELETE SET NULL".toList)) =
      .foreignKey [['a']] "order items".toList ∧
    ofText (indexedOpening ++ ("s.\x60order items\x60".toList ++
        groupText mixedList " ON DELETE SET NULL".toList)) =
      .foreignKey [['a']] "order items".toList := by
  have hword : EndsInWord indexedOpening "s.\x60order items\x60".toList :=
    ⟨by decide +kernel, by decide, by decide +kernel, by decide +kernel⟩
  have htakes : TakesGroup indexedOpening.words "s.\x60order items\x60".toList
      " ON DELETE SET NULL".toList := by
    have hwords : indexedOpening.words = ["Constraint".toList, "fk".toList] ++ "foreign".toList ::
        ["KEY".toList, "idx".toList, "(a)".toList, "REFERENCES".toList] := by decide +kernel
    have hcolumns : columnsOfKey? ["KEY".toList, "idx".toList, "(a)".toList, "REFERENCES".toList] =
        some ([['a']], ["REFERENCES".toList]) := by decide
    rw [hwords]
    exact .foreignKey _ (.constraint (by decide) (by decide)) (by decide) hcolumns (by decide)
  have hattached : ofText (indexedOpening ++ ("s.\x60order items\x60".toList ++
        groupText mixedList " ON DELETE SET NULL".toList)) =
      .foreignKey [['a']] "order items".toList := by decide +kernel
  have hsame := ofText_space_groupText hword balanced_mixedList htakes
  rw [hattached] at hsame
  exact ⟨hword, balanced_mixedList, htakes, hsame, hattached⟩

/-- Where the quoted name of a table has a parenthesis, the group is looked for there, and only a
blank keeps it apart from the name. Brackets do not even hide a quote, so the list behind them can
break off. -/
theorem ofText_space_groupText_ne :
    (Balanced ['d'] ∧ EndsInWord "c INT REFERENCES ".toList "\x60a(b\x60".toList ∧
      ofText "c INT REFERENCES \x60a(b\x60(d)".toList =
        .column ⟨['c'], "INT".toList, true, false, some "\x60a(b\x60(d)".toList⟩ ∧
      ofText "c INT REFERENCES \x60a(b\x60 (d)".toList =
        .column ⟨['c'], "INT".toList, true, false, some "a(b".toList⟩) ∧
    (ofText "FOREIGN KEY (c) REFERENCES \x60a(b\x60(d)".toList =
        .foreignKey [['c']] "\x60a(b\x60(d)".toList ∧
      ofText "FOREIGN KEY (c) REFERENCES \x60a(b\x60 (d)".toList =
        .foreignKey [['c']] "a(b".toList) ∧
    (ofText "c INT REFERENCES [it's]('x y')".toList =
        .column ⟨['c'], "INT".toList, true, false, some "[it's]('x".toList⟩ ∧
      ofText "c INT REFERENCES [it's] ('x y')".toList =
        .column ⟨['c'], "INT".toList, true, false, some "[it's] ('x".toList⟩) := by
  refine ⟨⟨.of_all (by decide), ⟨?_, ?_, ?_, ?_⟩, ?_⟩, ?_⟩ <;> decide +kernel

end Declaration
end DdlDiagram
