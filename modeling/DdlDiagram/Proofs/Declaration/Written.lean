import DdlDiagram.Proofs.Declaration.Reader
import DdlDiagram.Proofs.Identifier.Spelling

/-!
# Declarations as they are written

A declaration written with single blanks between its words is read word by word: a column as its
name and type with the reference behind them, a key clause as the identifiers of its list.
-/

namespace DdlDiagram

open Nesting

namespace Declaration

variable {t name list reference target rawType : Text} {modifiers : List Text}

def backticked (name : Text) : Text := '\x60' :: (name ++ ['\x60'])

def bracketed (name : Text) : Text := '[' :: (name ++ [']'])

def columnText (t : Text) : Text := t ++ " INT".toList

def referencingText (t reference : Text) : Text := t ++ " INT REFERENCES ".toList ++ reference

def primaryKeyText (list : Text) : Text := "PRIMARY KEY (".toList ++ list ++ ")".toList

def foreignKeyText (list reference : Text) : Text :=
  "FOREIGN KEY (".toList ++ list ++ ") REFERENCES ".toList ++ reference

/-- What starts with a spelling that is no keyword of a clause is a column of that name. -/
theorem ofWords?_column (h : Spells t name) (hfree : ∀ k ∈ clauseKeywords, k.is t = false)
    (hmodifiers : ∀ word, modifiers.head? = some word → word.head? ≠ some '(') :
    ofWords? (t :: rawType :: modifiers) = some (.column (columnWith t rawType modifiers)) := by
  rw [ofWords?_of_not_clause fun k hk => h.not_is_beforeGroup (hfree k hk),
    column?_of_head? hmodifiers]
  rfl

/-- A column without modifiers may be null and belongs to no key. -/
theorem columnWith_nil (h : Spells t name) :
    columnWith t rawType [] = ⟨name, rawType, true, false, none⟩ := by
  rw [columnWith, h.unquote_eq]
  rfl

/-- A reference as the only modifier gives the column its target. -/
theorem columnWith_references (h : Spells t name)
    (htarget : target? ["REFERENCES".toList, reference] = some target) :
    columnWith t rawType ["REFERENCES".toList, reference] =
      ⟨name, rawType, true, false, some target⟩ := by
  have hnull : haveNeighbours .notWord .null ["REFERENCES".toList, reference] = false :=
    haveNeighbours_pair_of_not (by decide)
  have hkey : haveNeighbours .primary .key ["REFERENCES".toList, reference] = false :=
    haveNeighbours_pair_of_not (by decide)
  rw [columnWith, h.unquote_eq, hnull, hkey, firstTarget?, htarget]
  rfl

theorem ofText_columnText (h : Spells t name) (huncut : Uncut isBlank t)
    (hfree : ∀ k ∈ clauseKeywords, k.is t = false) :
    ofText (columnText t) = .column ⟨name, "INT".toList, true, false, none⟩ := by
  have hjoin : columnText t = Text.join [' '] [t, "INT".toList] := by simp [columnText, Text.join]
  have hwords : Text.words (columnText t) = [t, "INT".toList] := by
    rw [hjoin]
    refine Text.words_join ?_ ?_
    · simp [h.isTight.ne_nil]
    · simpa using ⟨huncut, .of_all (by decide)⟩
  rw [ofText, hwords, ofWords?_column h hfree (by simp), columnWith_nil h, Option.getD_some]

theorem ofText_referencingText (h : Spells t name) (huncut : Uncut isBlank t)
    (hfree : ∀ k ∈ clauseKeywords, k.is t = false) (hreference : reference.words = [reference])
    (htarget : target? ["REFERENCES".toList, reference] = some target) :
    ofText (referencingText t reference) =
      .column ⟨name, "INT".toList, true, false, some target⟩ := by
  have hjoin : referencingText t reference =
      Text.join [' '] [t, "INT".toList, "REFERENCES".toList] ++ ' ' :: reference := by
    simp [referencingText, Text.join]
  have hwords : Text.words (referencingText t reference) =
      [t, "INT".toList, "REFERENCES".toList, reference] := by
    rw [hjoin, Text.words_join_append_space, hreference]
    · rfl
    · simp [h.isTight.ne_nil]
    · simpa using ⟨huncut, .of_all (by decide), .of_all (by decide)⟩
  have hhead : ∀ word, ["REFERENCES".toList, reference].head? = some word →
      word.head? ≠ some '(' := by
    intro word hword
    obtain rfl := Option.some.inj hword
    decide
  rw [ofText, hwords, ofWords?_column h hfree hhead, columnWith_references h htarget,
    Option.getD_some]

/-- A list in parentheses is the group of its word. -/
theorem group?_parenthesized (h : Balanced list) :
    Text.group? ('(' :: (list ++ [')'])) = some list :=
  congrArg Prod.snd (Text.splitGroup_append (s := []) (by simp) rfl h [])

/-- A primary key has the identifiers of its list, or is unknown if there are none. -/
theorem ofText_primaryKeyText (h : Balanced list) :
    ofText (primaryKeyText list) =
      if list.identifiers.isEmpty then .unknown (primaryKeyText list)
      else .primaryKey list.identifiers := by
  have hjoin : primaryKeyText list =
      Text.join [' '] ["PRIMARY".toList, "KEY".toList, '(' :: (list ++ [')'])] := rfl
  have hwords : Text.words (primaryKeyText list) =
      ["PRIMARY".toList, "KEY".toList, '(' :: (list ++ [')'])] := by
    rw [hjoin]
    refine Text.words_join (by simp) ?_
    simpa using ⟨.of_all (by decide), .of_all (by decide), .parenthesized h⟩
  rw [ofText, hwords, ofWords?_primaryKey (group?_parenthesized h)]
  split <;> rfl

/-- A foreign key has the identifiers of its list and the table of its reference. -/
theorem ofText_foreignKeyText (h : Balanced list) (hreference : reference.words = [reference])
    (htarget : target? ["REFERENCES".toList, reference] = some target) :
    ofText (foreignKeyText list reference) =
      if list.identifiers.isEmpty then .unknown (foreignKeyText list reference)
      else .foreignKey list.identifiers target := by
  have hjoin : foreignKeyText list reference =
      Text.join [' '] ["FOREIGN".toList, "KEY".toList, '(' :: (list ++ [')']),
        "REFERENCES".toList] ++ ' ' :: reference := by
    unfold foreignKeyText
    simp [Text.join_cons]
  have hwords : Text.words (foreignKeyText list reference) =
      ["FOREIGN".toList, "KEY".toList, '(' :: (list ++ [')']), "REFERENCES".toList, reference] := by
    rw [hjoin, Text.words_join_append_space (by simp), hreference]
    · rfl
    · simpa using ⟨.of_all (by decide), .of_all (by decide), .parenthesized h, .of_all (by decide)⟩
  rw [ofText, hwords, ofWords?_foreignKey (group?_parenthesized h) htarget]
  split <;> rfl

end Declaration
end DdlDiagram
