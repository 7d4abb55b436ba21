import DdlDiagram.Proofs.Layout.Fidelity
import DdlDiagram.Proofs.Layout.Placed
import DdlDiagram.Proofs.Token.Appended

/-!
# Layouts statement by statement

A layout goes on from the depth and from the token that it has come to, and from nothing else.
Behind a semicolon that leaves no parenthesis open it goes on as at the start of a text, only below
an empty line. So two texts of which the first ends there are laid out one by one.
-/

namespace DdlDiagram

variable {t u g : Text} {row : List Atom}

namespace Layout

theorem depthBehind_map_trimmed (depth : Nat) (row : List Atom) :
    depthBehind depth (row.map Atom.trimmed) = depthBehind depth row := by
  rw [depthBehind, depthBehind, List.foldl_map]
  congr
  funext depth atom
  obtain ⟨token, spaced⟩ := atom
  cases token <;> rfl

theorem tokenBehind_eq (previous : Option Token) (row : List Atom) :
    tokenBehind previous row = (row.map (·.token)).getLast?.or previous := by
  induction row generalizing previous with
  | nil => rfl
  | cons atom row ih =>
      change tokenBehind (some atom.token) row = _
      rw [ih, List.map_cons, List.getLast?_cons]
      cases (row.map (·.token)).getLast? <;> rfl

/-- Behind a semicolon a layout does not look at the gap in front of a text. It puts an empty line
there, and goes on as if the text stood alone. -/
theorem write_semicolon_gap_append (hg : Text.IsGap g) (hne : tokens u ≠ []) (indent : Nat) :
    write indent 0 (some .semicolon) ((atoms (g ++ u)).map Atom.trimmed) =
      "\n\n".toList ++ write indent 0 none ((atoms u).map Atom.trimmed) := by
  cases u using Text.token_induction with
  | gap _ hgap => exact absurd (tokens_of_isGap hgap) hne
  | token g' token u rest hg' hblank hnext =>
      rw [← List.append_assoc, atoms_append (Text.isGap_append.2 ⟨hg, hg'⟩) hblank hnext,
        atoms_append hg' hblank hnext, List.map_cons, List.map_cons, write_cons, write_cons]
      rfl

end Layout

/-- A text that ends in a semicolon with no parenthesis open, and another text behind it, are laid
out one by one, with an empty line between them. -/
theorem Text.format_append (hlast : (tokens t).getLast? = some .semicolon)
    (hdepth : Layout.depthBehind 0 (atoms t) = 0) (u : Text) (indent : Nat) :
    (t ++ u).format indent =
      if tokens u = [] then t.format indent
      else t.format indent ++ "\n\n".toList ++ u.format indent := by
  split
  · rename_i hnone
    exact format_append_gap (tokens_eq_nil_iff.1 hnone) indent t
  · rename_i hsome
    obtain ⟨g, hg, hatoms⟩ := exists_atoms_append hlast u
    have htoken : Layout.tokenBehind none ((atoms t).map Atom.trimmed) = some .semicolon := by
      have htrimmed :
          ((atoms t).map Atom.trimmed).map (·.token) = (tokens t).map Token.trimmed := by
        simp [tokens, Atom.trimmed]
      rw [Layout.tokenBehind_eq, htrimmed, List.getLast?_map, hlast]
      rfl
    rw [format_eq_write, hatoms, List.map_append, Layout.write_append,
      Layout.depthBehind_map_trimmed, hdepth, htoken, Layout.write_semicolon_gap_append hg hsome,
      format_eq_write, format_eq_write, List.append_assoc]

/-- A text with a `)` that closes nothing, and with semicolons within a table body, a quoted run and
comments; and one that starts in the middle of things. -/
def brokenStatements : Text × Text :=
  ("a ) b(x INT;y\n) -- c;\n /* ;*/ ';' CREATE ( ) ;\n ".toList,
    "\t ), )CREATE x(; -- d \n'e ;  ".toList)

theorem Text.format_append_brokenStatements :
    (tokens brokenStatements.1).getLast? = some .semicolon ∧
      Layout.depthBehind 0 (atoms brokenStatements.1) = 0 ∧
      (brokenStatements.1 ++ brokenStatements.2).format 2 =
        brokenStatements.1.format 2 ++ "\n\n".toList ++ brokenStatements.2.format 2 := by
  have hlast : (tokens brokenStatements.1).getLast? = some .semicolon := by decide +kernel
  have hdepth : Layout.depthBehind 0 (atoms brokenStatements.1) = 0 := by decide +kernel
  have hsome : tokens brokenStatements.2 ≠ [] := by decide +kernel
  have hformat := Text.format_append hlast hdepth brokenStatements.2 2
  rw [if_neg hsome] at hformat
  exact ⟨hlast, hdepth, hformat⟩

end DdlDiagram
