import DdlDiagram.Proofs.Layout.ReadBack

/-!
# What laying out keeps

Laying out a text changes nothing but the blanks between its tokens: the tokens of the layout
are those of the text, without the blanks that a cut-off token may end in. A layout is a normal
form of the tokens and of the spacing between running tokens, so laying it out again, with any
indentation, gives what the text itself would give.
-/

namespace DdlDiagram

namespace Token

/-- Of the tokens of a text only the last one can change under trimming, and only if it is cut
off. -/
theorem cutOff_of_trimmed_ne {atoms' : List Atom} (h : Legible atoms') {front back : List Token}
    {token : Token} (hsplit : atoms'.map (·.token) = front ++ token :: back)
    (hne : token.trimmed ≠ token) : back = [] ∧ CutOff token := by
  induction h generalizing front with
  | nil => simp at hsplit
  | @last atom hread =>
      obtain ⟨rfl, rfl, rfl⟩ : front = [] ∧ atom.token = token ∧ back = [] := by
        cases front <;> simp_all
      exact ⟨rfl, hread.resolve_left fun hwhole => hne hwhole.trimmed_eq⟩
  | cons hwhole _ _ ih =>
      cases front with
      | nil =>
          obtain ⟨rfl, -⟩ := List.cons.inj hsplit
          exact absurd hwhole.trimmed_eq hne
      | cons first front => exact ih (List.cons.inj hsplit).2

end Token

namespace Text

/-- A layout is written from the trimmed atoms, which leave nothing to trim. -/
theorem format_eq_write (indent : Nat) (t : Text) :
    t.format indent = Layout.write indent 0 none ((atoms t).map Atom.trimmed) :=
  (Layout.write_map_trimmed (legible_atoms t) indent 0 none).symm

theorem atoms_format (indent : Nat) (t : Text) :
    atoms (t.format indent) = Layout.respace indent 0 none ((atoms t).map Atom.trimmed) := by
  rw [format_eq_write]
  exact Layout.atoms_write (legible_atoms t).map_trimmed indent 0 none

theorem tokens_format (indent : Nat) (t : Text) :
    tokens (t.format indent) = (tokens t).map Token.trimmed := by
  rw [tokens, atoms_format, Layout.map_token_respace, tokens, List.map_map, List.map_map]
  rfl

/-- A layout has the tokens of the text, compared without the blanks at their end. Only a last
token that is cut off has any. -/
theorem same_tokens_format (indent : Nat) (t : Text) :
    (tokens (t.format indent)).map Token.trimmed = (tokens t).map Token.trimmed ∧
      ∀ front token back, tokens t = front ++ token :: back → token.trimmed ≠ token →
        back = [] ∧ token.CutOff := by
  constructor
  · rw [tokens_format, List.map_map]
    exact List.map_congr_left fun token _ => token.trimmed_trimmed
  · intro front token back hsplit hne
    exact Token.cutOff_of_trimmed_ne (legible_atoms t) hsplit hne

/-- A line comment with code behind it, and a quoted run that the text leaves open and ends in
blanks. -/
def cutOffText : Text := "a-b --c\n'd \t".toList

theorem same_tokens_format_cutOffText :
    (tokens (cutOffText.format 2)).map Token.trimmed =
        [.word "a-b".toList, .lineComment "--c".toList, .quoted "'d".toList] ∧
      (Token.quoted "'d \t".toList).trimmed ≠ .quoted "'d \t".toList ∧
      Token.CutOff (.quoted "'d \t".toList) := by
  obtain ⟨hsame, hlast⟩ := same_tokens_format 2 cutOffText
  have htokens : tokens cutOffText =
      [.word "a-b".toList, .lineComment "--c".toList] ++ [.quoted "'d \t".toList] := by
    calc tokens cutOffText
      _ = .word "a-b".toList :: tokens " --c\n'd \t".toList :=
          tokens_append isGap_nil rfl (by decide +kernel)
      _ = .word "a-b".toList :: .lineComment "--c".toList :: tokens "\n'd \t".toList :=
          congrArg _ (tokens_append isGap_space rfl (by decide +kernel))
      _ = [.word "a-b".toList, .lineComment "--c".toList] ++
            .quoted "'d \t".toList :: tokens [] :=
          congrArg _ (congrArg _ (tokens_append isGap_feed rfl (by decide +kernel)))
      _ = _ := by rw [tokens_of_isGap isGap_nil]
  have htrimmed : (Token.quoted "'d \t".toList).trimmed ≠ .quoted "'d \t".toList := by decide
  have hkept : (tokens cutOffText).map Token.trimmed =
      [.word "a-b".toList, .lineComment "--c".toList, .quoted "'d".toList] := by
    rw [htokens]
    decide
  exact ⟨hsame.trans hkept, htrimmed, (hlast _ _ _ htokens htrimmed).2⟩

/-- Blanks behind a text do not show in its layout. -/
theorem format_append_gap {g : Text} (hg : IsGap g) (indent : Nat) (t : Text) :
    (t ++ g).format indent = t.format indent := by
  rw [format_eq_write, format_eq_write, map_trimmed_atoms_append_gap hg]

/-- A layout is laid out like the text it was made from, whatever its indentation was and also
with a line feed behind it. -/
theorem format_of_format (indent other : Nat) (t : Text) :
    (t.format other).format indent = t.format indent ∧
      (t.format other ++ ['\n']).format indent = t.format indent := by
  have hagain : (t.format other).format indent = t.format indent := by
    rw [format, atoms_format, Layout.write_respace, ← format_eq_write]
    exact trimEnd_trimEnd _
  have hfeed : IsGap ['\n'] := isGap_cons.2 ⟨rfl, isGap_nil⟩
  exact ⟨hagain, (format_append_gap hfeed indent _).trans hagain⟩

end Text
end DdlDiagram
