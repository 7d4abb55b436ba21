import DdlDiagram.Proofs.Declaration.Literal
import DdlDiagram.Proofs.Declaration.References

/-!
# Modifiers of a column in any order

The reader looks for `NOT NULL`, `PRIMARY KEY` and `REFERENCES` at every word behind the type of a
column, without knowing where a clause ends. No other clause has a word that is `NOT`, `PRIMARY` or
`REFERENCES`: keywords stand in it for themselves, literals and numbers are none, and a table with
its columns has a parenthesis. So each clause is found wherever it stands, and nothing is found
across two of them.
-/

namespace DdlDiagram

open Nesting

variable {t name word line rawType : Text} {ws : List Text}

namespace Declaration

/-- String literals. A doubled quote in one ends a quoted run and starts the next. -/
inductive IsLiteral : Text → Prop where
  | closed {contents : Text} : '\'' ∉ contents → IsLiteral (literal contents)
  | doubled {contents rest : Text} : '\'' ∉ contents → IsLiteral rest →
      IsLiteral ('\'' :: (contents ++ '\'' :: rest))

/-- The values that `DEFAULT` and `COMMENT` take: literals, and numbers with a sign, a point and an
exponent or without them. -/
inductive IsValue : Text → Prop where
  | literal {t : Text} : IsLiteral t → IsValue t
  | number {t : Text} {c : Char} : c ∈ t → c.isDigit = true →
      (∀ d ∈ t, isIdentifierChar d = true ∨ d ∈ ['+', '-', '.']) → IsValue t

/-- A spelling of a name that is one word and hides neither a parenthesis nor a point. -/
structure IsReference (t name : Text) : Prop where
  spells : Spells t name
  bracket : t.head? = some '[' → Uncut isBlank t
  paren_not_mem : '(' ∉ t
  point_not_mem : '.' ∉ name

/-- A bare name is such a spelling of itself. -/
theorem isReference_of_isBare (hne : name ≠ []) (h : name.IsBare) : IsReference name name where
  spells := .bare hne h
  bracket _ := h.uncut fun _ => isBlank_eq_false_of_isIdentifierChar
  paren_not_mem := h.not_mem (by decide)
  point_not_mem := h.not_mem (by decide)

/-- What happens to a row when the one it refers to changes. -/
inductive Action where
  | cascade
  | setNull
  deriving DecidableEq, Repr

/-- The clauses that may stand behind the type of a column. A reference has the spelling of a table
and its list of columns. -/
inductive Modifier where
  | notNull
  | primaryKey
  | unique
  | autoIncrement
  | defaultValue (value : Text)
  | comment (value : Text)
  | onUpdate (action : Action)
  | onDelete (action : Action)
  | references (table list : Text)
  deriving DecidableEq, Repr

namespace Action

def keywords : Action → List Text
  | cascade => ["CASCADE".toList]
  | setNull => ["SET".toList, "NULL".toList]

end Action

namespace Modifier

def keywords : Modifier → List Text
  | notNull => ["NOT".toList, "NULL".toList]
  | primaryKey => ["PRIMARY".toList, "KEY".toList]
  | unique => ["UNIQUE".toList]
  | autoIncrement => ["AUTO_INCREMENT".toList]
  | defaultValue _ => ["DEFAULT".toList]
  | comment _ => ["COMMENT".toList]
  | onUpdate action => ["ON".toList, "UPDATE".toList] ++ action.keywords
  | onDelete action => ["ON".toList, "DELETE".toList] ++ action.keywords
  | references _ _ => ["REFERENCES".toList]

def arguments : Modifier → List Text
  | defaultValue value | comment value => [value]
  | references table list => [referenceText table list]
  | _ => []

/-- Values are literals or numbers, and a reference spells a table. -/
def IsWellFormed : Modifier → Prop
  | defaultValue value | comment value => IsValue value
  | references table list => (∃ name, IsReference table name) ∧ Balanced list
  | _ => True

/-- The words of a clause: its keywords in any case and its arguments. -/
def IsWritten (m : Modifier) (words : List Text) : Prop :=
  ∃ front, List.Forall₂ (fun w k => w.eqIgnoreCase k = true) front m.keywords ∧
    words = front ++ m.arguments

/-- The keyword that makes the reader look at a clause. -/
def mark? : Modifier → Option Keyword
  | notNull => some .notWord
  | primaryKey => some .primary
  | references _ _ => some .references
  | _ => none

def target? : Modifier → Option Text
  | references table _ => some table.unquote
  | _ => none

end Modifier

end Declaration

theorem exists_mem_of_forall₂ {α β : Type} {R : α → β → Prop} {xs : List α} {ys : List β}
    (h : List.Forall₂ R xs ys) : ∀ x ∈ xs, ∃ y ∈ ys, R x y := by
  induction h with
  | nil => exact fun x hx => nomatch hx
  | @cons x y xs ys hhead _ ih =>
      refine List.forall_mem_cons.2 ⟨⟨y, List.mem_cons_self, hhead⟩, fun x' hx' => ?_⟩
      obtain ⟨y', hy', hR⟩ := ih x' hx'
      exact ⟨y', List.mem_cons_of_mem y hy', hR⟩

theorem Text.eq_nil_of_eqIgnoreCase (h : Text.eqIgnoreCase [] t = true) : t = [] := by
  rw [eqIgnoreCase, beq_iff_eq] at h
  exact List.map_eq_nil_iff.1 h.symm

theorem Declaration.IsLiteral.uncut {cut : Char → Bool} (h : Declaration.IsLiteral t) :
    Uncut cut t := by
  induction h with
  | closed hcontents => exact uncut_literal hcontents cut
  | doubled hcontents _ ih => exact .run rfl hcontents ih

namespace Declaration

theorem IsLiteral.head? (h : IsLiteral t) : t.head? = some '\'' := by
  cases h <;> rfl

theorem IsValue.uncut (h : IsValue t) : Uncut isBlank t := by
  cases h with
  | literal hliteral => exact hliteral.uncut
  | number _ _ hall =>
      refine .of_forall fun c hc => ?_
      rcases hall c hc with hident | hmark
      · refine ⟨isQuote_eq_false_of_isIdentifierChar hident, ?_, ?_,
          isBlank_eq_false_of_isIdentifierChar hident⟩
        · exact ne_of_isIdentifierChar hident (by decide)
        · exact ne_of_isIdentifierChar hident (by decide)
      · have hplain : ['+', '-', '.'].all
            (fun d => !isQuote d && d != '(' && d != ')' && !isBlank d) = true := by decide
        simpa [and_assoc] using List.all_eq_true.1 hplain c hmark

theorem IsValue.ne_nil (h : IsValue t) : t ≠ [] := by
  cases h with
  | literal hliteral =>
      rintro rfl
      cases hliteral.head?
  | number hc => exact List.ne_nil_of_mem hc

/-- A value is no keyword. -/
theorem IsValue.is_eq_false (h : IsValue t) (k : Keyword) : k.is t = false := by
  cases h with
  | literal hliteral =>
      exact k.is_eq_false_of_mem (List.mem_of_mem_head? hliteral.head?) (by decide)
  | number hc hdigit => exact k.is_eq_false_of_isDigit hc hdigit

theorem IsReference.uncut (h : IsReference t name) : Uncut isBlank t :=
  h.spells.uncut_of_bracket (fun _ => isBlank_eq_false_of_isIdentifierChar) h.bracket

namespace Modifier

variable {m : Modifier} {k : Keyword} {ms : List Modifier} {wss : List (List Text)}

/-- The keywords of a clause are bare words. -/
theorem forall_mem_keywords (m : Modifier) :
    ∀ u ∈ m.keywords, u ≠ [] ∧ u.all (isIdentifierChar ·.toLower) = true := by
  cases m with
  | onUpdate action => cases action <;> decide
  | onDelete action => cases action <;> decide
  | _ => simp only [keywords]; decide

/-- Only three clauses have a keyword that the reader looks for. -/
theorem is_eq_false_of_mem_keywords (m : Modifier) :
    ∀ k ∈ [Keyword.notWord, .primary, .references], m.mark? ≠ some k →
      ∀ u ∈ m.keywords, k.is u = false := by
  cases m with
  | onUpdate action => cases action <;> decide
  | onDelete action => cases action <;> decide
  | _ => simp only [keywords, mark?]; decide

/-- What a clause applies to is a word, and no keyword. -/
theorem IsWellFormed.forall_mem_arguments (hm : m.IsWellFormed) :
    ∀ w ∈ m.arguments, w ≠ [] ∧ Uncut isBlank w ∧ ∀ k : Keyword, k.is w = false := by
  have hvalue : ∀ {value : Text}, IsValue value →
      value ≠ [] ∧ Uncut isBlank value ∧ ∀ k : Keyword, k.is value = false :=
    fun h => ⟨h.ne_nil, h.uncut, h.is_eq_false⟩
  cases m with
  | defaultValue value => exact List.forall_mem_singleton.2 (hvalue hm)
  | comment value => exact List.forall_mem_singleton.2 (hvalue hm)
  | references table list =>
      obtain ⟨⟨name, htable⟩, hlist⟩ := hm
      refine List.forall_mem_singleton.2 ⟨by simp [referenceText], ?_, fun k => ?_⟩
      · exact htable.uncut.append (.parenthesized hlist)
      · exact k.is_eq_false_of_mem (c := '(') (by simp [referenceText]) (by decide)
  | _ => exact List.forall_mem_nil _

theorem eq_notNull_of_mark? (m : Modifier) (h : m.mark? = some .notWord) : m = notNull := by
  cases m with
  | notNull => rfl
  | _ => cases h

theorem eq_primaryKey_of_mark? (m : Modifier) (h : m.mark? = some .primary) : m = primaryKey := by
  cases m with
  | primaryKey => rfl
  | _ => cases h

/-- The words of a clause are words of their line. -/
theorem IsWritten.forall_mem (hm : m.IsWellFormed) (h : m.IsWritten ws) :
    ∀ w ∈ ws, w ≠ [] ∧ Uncut isBlank w := by
  obtain ⟨front, hfront, rfl⟩ := h
  rw [List.forall_mem_append]
  refine ⟨fun w hw => ?_, fun w hw => ?_⟩
  · obtain ⟨u, hu, hcase⟩ := exists_mem_of_forall₂ hfront w hw
    obtain ⟨hne, hletters⟩ := m.forall_mem_keywords u hu
    refine ⟨?_, ?_⟩
    · rintro rfl
      exact hne (Text.eq_nil_of_eqIgnoreCase hcase)
    · exact (Keyword.isBare_of_eqIgnoreCase hcase (List.all_eq_true.1 hletters)).uncut
        fun _ => isBlank_eq_false_of_isIdentifierChar
  · obtain ⟨hne, huncut, -⟩ := hm.forall_mem_arguments w hw
    exact ⟨hne, huncut⟩

/-- A clause without a mark has no word that is one. -/
theorem IsWritten.is_eq_false (hm : m.IsWellFormed) (h : m.IsWritten ws)
    (hk : k ∈ [Keyword.notWord, .primary, .references]) (hmark : m.mark? ≠ some k) :
    ∀ w ∈ ws, k.is w = false := by
  obtain ⟨front, hfront, rfl⟩ := h
  rw [List.forall_mem_append]
  refine ⟨fun w hw => ?_, fun w hw => (hm.forall_mem_arguments w hw).2.2 k⟩
  obtain ⟨u, hu, hcase⟩ := exists_mem_of_forall₂ hfront w hw
  rw [Keyword.is_congr hcase]
  exact m.is_eq_false_of_mem_keywords k hk hmark u hu

/-- A clause starts with a bare word. -/
theorem IsWritten.exists_cons (h : m.IsWritten ws) : ∃ w rest, ws = w :: rest ∧ '(' ∉ w := by
  obtain ⟨front, hfront, rfl⟩ := h
  have hne : m.keywords ≠ [] := by cases m <;> simp [keywords]
  obtain ⟨u, us, hu⟩ := List.exists_cons_of_ne_nil hne
  rw [hu] at hfront
  obtain ⟨w, rest, hcase, -, rfl⟩ := List.forall₂_cons_right_iff.1 hfront
  have hletters := (m.forall_mem_keywords u (hu ▸ List.mem_cons_self)).2
  have hbare := Keyword.isBare_of_eqIgnoreCase hcase (List.all_eq_true.1 hletters)
  exact ⟨w, rest ++ m.arguments, rfl, hbare.not_mem (by decide)⟩

/-- A clause of two keywords is those two words. -/
theorem IsWritten.exists_pair {first second : Keyword} (h : m.IsWritten ws)
    (hkeywords : m.keywords = [first.spelling, second.spelling]) (harguments : m.arguments = []) :
    ∃ w w', ws = [w, w'] ∧ first.is w = true ∧ second.is w' = true := by
  obtain ⟨front, hfront, rfl⟩ := h
  rw [hkeywords] at hfront
  obtain ⟨w, rest, hfirst, hrest, rfl⟩ := List.forall₂_cons_right_iff.1 hfront
  obtain ⟨w', rest', hsecond, hrest', rfl⟩ := List.forall₂_cons_right_iff.1 hrest
  obtain rfl := List.forall₂_nil_right_iff.1 hrest'
  exact ⟨w, w', by rw [harguments]; rfl, hfirst, hsecond⟩

/-- A reference is its keyword and the word behind it. -/
theorem IsWritten.exists_reference {table list : Text} (h : (references table list).IsWritten ws) :
    ∃ w, ws = [w, referenceText table list] ∧ Keyword.references.is w = true := by
  obtain ⟨front, hfront, rfl⟩ := h
  obtain ⟨w, rest, hreference, hrest, rfl⟩ := List.forall₂_cons_right_iff.1 hfront
  obtain rfl := List.forall₂_nil_right_iff.1 hrest
  exact ⟨w, rfl, hreference⟩

theorem forall_mem_flatten (hms : ∀ m ∈ ms, m.IsWellFormed) (h : List.Forall₂ IsWritten ms wss) :
    ∀ w ∈ wss.flatten, w ≠ [] ∧ Uncut isBlank w := by
  induction h with
  | nil => exact List.forall_mem_nil _
  | cons hwritten _ ih =>
      obtain ⟨hm, hms⟩ := List.forall_mem_cons.1 hms
      rw [List.flatten_cons, List.forall_mem_append]
      exact ⟨hwritten.forall_mem hm, ih hms⟩

/-- A clause of two keywords is found in a row of clauses exactly if it is one of them. -/
theorem haveNeighbours_flatten_iff {first second : Keyword}
    (hfirst : first ∈ [Keyword.notWord, .primary])
    (hkeywords : m.keywords = [first.spelling, second.spelling]) (harguments : m.arguments = [])
    (hmark : ∀ m', m'.mark? = some first → m' = m) (hms : ∀ m ∈ ms, m.IsWellFormed)
    (h : List.Forall₂ IsWritten ms wss) :
    haveNeighbours first second wss.flatten = true ↔ m ∈ ms := by
  have hlooked : first ∈ [Keyword.notWord, .primary, .references] := by
    have hsubset : [Keyword.notWord, .primary] ⊆ [Keyword.notWord, .primary, .references] := by
      decide
    exact hsubset hfirst
  induction h with
  | nil => simp [haveNeighbours]
  | @cons m' ws ms wss hwritten _ ih =>
      obtain ⟨hm', hms⟩ := List.forall_mem_cons.1 hms
      rw [List.flatten_cons]
      by_cases hm : m' = m
      · subst hm
        obtain ⟨w, w', rfl, hw, hw'⟩ := hwritten.exists_pair hkeywords harguments
        exact iff_of_true (haveNeighbours_cons_cons hw hw') List.mem_cons_self
      · have hother := hwritten.is_eq_false hm' hlooked fun heq => hm (hmark m' heq)
        rw [haveNeighbours_append_of_not hother, List.mem_cons, or_iff_right (Ne.symm hm)]
        exact ih hms

/-- The table that a row of clauses refers to is that of its first reference. -/
theorem firstTarget?_flatten (hms : ∀ m ∈ ms, m.IsWellFormed)
    (h : List.Forall₂ IsWritten ms wss) :
    firstTarget? wss.flatten = ms.findSome? target? := by
  induction h with
  | nil => rfl
  | @cons m ws ms wss hwritten _ ih =>
      obtain ⟨hm, hms⟩ := List.forall_mem_cons.1 hms
      rw [List.flatten_cons, List.findSome?_cons]
      by_cases hmark : m.mark? = some .references
      · cases m with
        | references table list =>
            obtain ⟨w, rfl, hw⟩ := hwritten.exists_reference
            obtain ⟨⟨name, htable⟩, hlist⟩ := hm
            have hname := tableName_referenceText (.single htable.spells) htable.paren_not_mem
              htable.point_not_mem hlist
            rw [List.cons_append, List.singleton_append, firstTarget?,
              target?_of_is hw (hname ▸ htable.spells.ne_nil), hname, target?,
              htable.spells.unquote_eq, Option.some_or]
        | _ => cases hmark
      · have hnone : m.target? = none := by
          cases m with
          | references table list => exact absurd rfl hmark
          | _ => rfl
        rw [firstTarget?_append_of_not (hwritten.is_eq_false hm (by decide) hmark), ih hms, hnone]

/-- A row with at most one reference refers to the table of that one. -/
theorem findSome?_target?_eq_some_iff (hms : ∀ m ∈ ms, m.IsWellFormed)
    (hone : (ms.filterMap target?).length ≤ 1) : ms.findSome? target? = some name ↔
      ∃ table list, .references table list ∈ ms ∧ Spells table name := by
  have hhead : ∀ names : List Text, names.length ≤ 1 →
      (names.head? = some name ↔ name ∈ names) := by
    intro names hlength
    match names, hlength with
    | [], _ => simp
    | [_], _ => simp [eq_comm]
  rw [← List.head?_filterMap, hhead _ hone, List.mem_filterMap]
  constructor
  · rintro ⟨m, hmem, htarget⟩
    cases m with
    | references table list =>
        obtain ⟨⟨spelled, htable⟩, -⟩ := hms _ hmem
        obtain rfl : spelled = name := htable.spells.unquote_eq.symm.trans (Option.some.inj htarget)
        exact ⟨table, list, hmem, htable.spells⟩
    | _ => cases htarget
  · rintro ⟨table, list, hmem, hspells⟩
    exact ⟨_, hmem, congrArg some hspells.unquote_eq⟩

end Modifier

/-- Words with blanks between any two of them, and perhaps behind the last one. -/
inductive Spaced : List Text → Text → Prop where
  | last {word gap : Text} : gap.IsGap → Spaced [word] (word ++ gap)
  | cons {word gap rest : Text} {words : List Text} : gap.IsGap → gap ≠ [] → Spaced words rest →
      Spaced (word :: words) (word ++ (gap ++ rest))

theorem Spaced.words_eq (h : Spaced ws line) (hws : ∀ w ∈ ws, w ≠ [] ∧ Uncut isBlank w) :
    line.words = ws := by
  induction h with
  | @last word gap hgap =>
      obtain ⟨hne, huncut⟩ := hws word List.mem_cons_self
      have hend : gap = [] ∨ gap.startsBlank = true := by
        cases gap with
        | nil => exact .inl rfl
        | cons c others => exact .inr (hgap c List.mem_cons_self)
      have hwords := Text.words_gap_append hgap []
      rw [List.append_nil] at hwords
      rw [Text.words_uncut_append huncut hne hend, hwords]
      rfl
  | @cons word gap rest words hgap hne _ ih =>
      obtain ⟨⟨hword, huncut⟩, hrest⟩ := List.forall_mem_cons.1 hws
      obtain ⟨c, others, rfl⟩ := List.exists_cons_of_ne_nil hne
      have hblank : Text.startsBlank (c :: others ++ rest) = true := hgap c List.mem_cons_self
      rw [Text.words_uncut_append huncut hword (.inr hblank), Text.words_gap_append hgap, ih hrest]

theorem spaced_join (word : Text) (words : List Text) :
    Spaced (word :: words) (Text.join [' '] (word :: words)) := by
  induction words generalizing word with
  | nil =>
      rw [← List.append_nil (Text.join [' '] [word])]
      exact .last Text.isGap_nil
  | cons next rest ih =>
      rw [Text.join_cons_cons, List.append_assoc]
      exact .cons Text.isGap_space (List.cons_ne_nil _ _) (ih next)

/-- A column with any clauses behind its type: it may be null unless one of them says `NOT NULL`,
is a key if one of them says `PRIMARY KEY`, and refers to the table that one of them names, in
whatever order they stand. -/
theorem exists_ofText_of_modifiers {ms : List Modifier} {wss : List (List Text)}
    (hname : Spells t name) (hfree : ∀ k ∈ clauseKeywords, k.is t = false)
    (hbracket : t.head? = some '[' → Uncut isBlank t) (htype : rawType ≠ [])
    (huncut : Uncut isBlank rawType) (hms : ∀ m ∈ ms, m.IsWellFormed)
    (hone : (ms.filterMap Modifier.target?).length ≤ 1)
    (hwritten : List.Forall₂ Modifier.IsWritten ms wss)
    (hline : Spaced (t :: rawType :: wss.flatten) line) :
    ∃ column, ofText line = .column column ∧ column.name = name ∧ column.rawType = rawType ∧
      (column.nullable = false ↔ .notNull ∈ ms) ∧ (column.primaryKey = true ↔ .primaryKey ∈ ms) ∧
      ∀ target, column.references = some target ↔
        ∃ table list, .references table list ∈ ms ∧ Spells table target := by
  have hname' : Uncut isBlank t :=
    hname.uncut_of_bracket (fun _ => isBlank_eq_false_of_isIdentifierChar) hbracket
  have hmodifiers : ∀ w ∈ wss.flatten, w ≠ [] ∧ Uncut isBlank w :=
    Modifier.forall_mem_flatten hms hwritten
  have hwords : line.words = t :: rawType :: wss.flatten := by
    refine hline.words_eq ?_
    rw [List.forall_mem_cons, List.forall_mem_cons]
    exact ⟨⟨hname.isTight.ne_nil, hname'⟩, ⟨htype, huncut⟩, hmodifiers⟩
  have hhead : ∀ word, wss.flatten.head? = some word → word.head? ≠ some '(' := by
    intro word hword
    cases hwritten with
    | nil => cases hword
    | cons hfirst _ =>
        obtain ⟨w, rest, rfl, hparen⟩ := hfirst.exists_cons
        obtain rfl := Option.some.inj hword
        exact fun hopen => hparen (List.mem_of_mem_head? hopen)
  refine ⟨columnWith t rawType wss.flatten, ?_, hname.unquote_eq, rfl, ?_, ?_, fun target => ?_⟩
  · rw [ofText, hwords, ofWords?_column hname hfree hhead, Option.getD_some]
  · have hnull : haveNeighbours .notWord .null wss.flatten = true ↔ .notNull ∈ ms :=
      Modifier.haveNeighbours_flatten_iff (by decide) rfl rfl Modifier.eq_notNull_of_mark? hms
        hwritten
    rw [columnWith, Bool.not_eq_false', hnull]
  · exact Modifier.haveNeighbours_flatten_iff (by decide) rfl rfl Modifier.eq_primaryKey_of_mark?
      hms hwritten
  · rw [columnWith, Modifier.firstTarget?_flatten hms hwritten,
      Modifier.findSome?_target?_eq_some_iff hms hone]

/-- Clauses that hold each other's keywords: a table `Not`, a literal that says `NOT NULL`, and an
action that ends in `NULL`. -/
def crowdedModifiers : List Modifier :=
  [.references "Not".toList "null".toList, .defaultValue "'it''s NOT NULL'".toList,
    .onUpdate .setNull, .primaryKey, .comment "-1.5e3".toList]

def crowdedWords : List (List Text) :=
  [["references".toList, "Not(null)".toList], ["DEFAULT".toList, "'it''s NOT NULL'".toList],
    ["On".toList, "update".toList, "SET".toList, "null".toList], ["primary".toList, "Key".toList],
    ["comment".toList, "-1.5e3".toList]]

theorem forall_mem_crowdedModifiers : ∀ m ∈ crowdedModifiers, m.IsWellFormed := by
  have hnot : Text.IsBare "Not".toList := List.all_eq_true.1 (by decide)
  have hliteral : IsLiteral "'it''s NOT NULL'".toList := by
    have hsplit : "'it''s NOT NULL'".toList =
        '\'' :: ("it".toList ++ '\'' :: literal "s NOT NULL".toList) := rfl
    rw [hsplit]
    exact .doubled (by decide) (.closed (by decide))
  have hmarks : "-1.5e3".toList.all (fun d => isIdentifierChar d || ['+', '-', '.'].contains d) =
      true := by decide
  have hnumber : IsValue "-1.5e3".toList := .number (c := '1') (by decide) (by decide)
    fun d hd => by simpa only [Bool.or_eq_true, List.contains_iff_mem] using
      List.all_eq_true.1 hmarks d hd
  simp only [crowdedModifiers, List.forall_mem_cons]
  exact ⟨⟨⟨_, isReference_of_isBare (by decide) hnot⟩, .of_all (by decide)⟩, .literal hliteral,
    trivial, trivial, hnumber, List.forall_mem_nil _⟩

theorem forall₂_crowdedWords :
    List.Forall₂ Modifier.IsWritten crowdedModifiers crowdedWords := by
  refine .cons ⟨["references".toList], .cons (by decide) .nil, rfl⟩ ?_
  refine .cons ⟨["DEFAULT".toList], .cons (by decide) .nil, rfl⟩ ?_
  refine .cons ⟨["On".toList, "update".toList, "SET".toList, "null".toList], ?_, rfl⟩ ?_
  · exact .cons (by decide) (.cons (by decide) (.cons (by decide) (.cons (by decide) .nil)))
  refine .cons ⟨["primary".toList, "Key".toList], ?_, rfl⟩ ?_
  · exact .cons (by decide) (.cons (by decide) .nil)
  exact .cons ⟨["comment".toList], .cons (by decide) .nil, rfl⟩ .nil

theorem exists_ofText_of_crowdedModifiers :
    (crowdedModifiers.filterMap Modifier.target?).length ≤ 1 ∧
    Spaced ("id".toList :: "DECIMAL(10, ')')".toList :: crowdedWords.flatten)
      (Text.join [' '] ("id".toList :: "DECIMAL(10, ')')".toList :: crowdedWords.flatten)) ∧
    ∃ column, ofText (Text.join [' ']
        ("id".toList :: "DECIMAL(10, ')')".toList :: crowdedWords.flatten)) = .column column ∧
      column.name = "id".toList ∧ column.rawType = "DECIMAL(10, ')')".toList ∧
      column.nullable = true ∧ column.primaryKey = true ∧
      column.references = some "Not".toList := by
  have hid : Text.IsBare "id".toList := List.all_eq_true.1 (by decide)
  have hnot : Text.IsBare "Not".toList := List.all_eq_true.1 (by decide)
  have hone : (crowdedModifiers.filterMap Modifier.target?).length ≤ 1 := by decide
  have hline := spaced_join "id".toList ("DECIMAL(10, ')')".toList :: crowdedWords.flatten)
  have huncut : Uncut isBlank "DECIMAL(10, ')')".toList := by
    have hsplit : "DECIMAL(10, ')')".toList = "DECIMAL".toList ++
        '(' :: (("10, ".toList ++ '\'' :: ([')'] ++ '\'' :: [])) ++ ')' :: []) := rfl
    have hlist : Balanced ("10, ".toList ++ '\'' :: ([')'] ++ '\'' :: [])) :=
      .append (.of_all (by decide)) (.run rfl (by decide) (.nil _))
    rw [hsplit]
    exact .append (.of_all (by decide)) (.group hlist (.nil _))
  obtain ⟨column, hcolumn, hname, htype, hnull, hkey, htarget⟩ :=
    exists_ofText_of_modifiers (.bare (by decide) hid) (by decide)
      (fun h => absurd h (by decide)) (by decide) huncut forall_mem_crowdedModifiers hone
      forall₂_crowdedWords hline
  refine ⟨hone, hline, column, hcolumn, hname, htype, ?_, ?_, ?_⟩
  · rw [← Bool.not_eq_false, hnull]
    decide
  · exact hkey.2 (by decide)
  · exact (htarget _).2 ⟨_, _, List.mem_cons_self, .bare (by decide) hnot⟩

end Declaration
end DdlDiagram
