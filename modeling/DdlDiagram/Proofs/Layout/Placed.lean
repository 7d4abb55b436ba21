import DdlDiagram.Layout
import DdlDiagram.Proofs.Token.Placed

/-!
# The depth that a layout counts

A layout counts parentheses as it writes tokens, and never looks into a quoted run. What splits a
text at its commas counts the parentheses that are not quoted. In a text without comments both
come to the same depth in front of every token, so they agree on which commas end a declaration.
-/

namespace DdlDiagram

variable {t : Text} {p : Placed} {before behind : List Placed}

/-- The depth behind a text, where only the characters outside of quoted runs count. -/
def Text.unquotedDepth (t : Text) : Depth := (unquoted t).foldl (fun d x => d.after x.2) 0

namespace Layout

/-- The depth at which a layout goes on behind a row of atoms. -/
def depthBehind (depth : Nat) (row : List Atom) : Nat :=
  row.foldl (fun depth atom => atom.token.depthAfter depth) depth

def tokenBehind (previous : Option Token) (row : List Atom) : Option Token :=
  row.foldl (fun _ atom => some atom.token) previous

theorem write_append (indent depth : Nat) (previous : Option Token) (row others : List Atom) :
    write indent depth previous (row ++ others) = write indent depth previous row ++
      write indent (depthBehind depth row) (tokenBehind previous row) others := by
  induction row generalizing depth previous with
  | nil => rfl
  | cons atom row ih =>
      simp only [List.cons_append, write, ih, List.append_assoc]
      rfl

end Layout

/-- In front of each token stands what the tokens before it were read from, and that has as many
parentheses open as they have. -/
theorem exists_of_placedFrom_eq_append (t : Text)
    (hfree : ∀ token ∈ tokens t, token.isComment = false) (offset : Nat)
    (h : placedFrom offset t = before ++ p :: behind) :
    ∃ front rest, t = front ++ (p.atom.token.source ++ rest) ∧
      offset + front.utf8Size = p.offset ∧
      ∀ d : Depth, Nesting.afterText ⟨none, d⟩ front =
        ⟨none, Layout.depthBehind d (before.map (·.atom))⟩ := by
  refine Text.commentFree_induction (motive := fun t => ∀ offset before,
    placedFrom offset t = before ++ p :: behind → ∃ front rest,
      t = front ++ (p.atom.token.source ++ rest) ∧ offset + front.utf8Size = p.offset ∧
        ∀ d : Depth, Nesting.afterText ⟨none, d⟩ front =
          ⟨none, Layout.depthBehind d (before.map (·.atom))⟩)
    ?gap ?token t hfree offset before h
  case gap =>
    intro g hg offset before h
    rw [placedFrom_of_isGap offset hg] at h
    simp at h
  case token =>
    intro g token rest hg hread hcomment hblank hnext _ ih offset before h
    rw [placedFrom_append offset hg hblank hnext] at h
    have hgap := fun d => (Token.uncut_of_isGap hg).afterText d
    cases before with
    | nil =>
        obtain ⟨rfl, -⟩ := List.cons.inj h
        exact ⟨g, rest, rfl, rfl, hgap⟩
    | cons first before =>
        obtain ⟨rfl, hbehind⟩ := List.cons.inj h
        rcases hread with ⟨hwhole, -⟩ | ⟨-, rfl⟩
        · obtain ⟨front, others, rfl, hoffset, hdepth⟩ := ih _ before hbehind
          refine ⟨g ++ (token.source ++ front), others, by simp, ?_, ?_⟩
          · rw [Text.utf8Size_append, Text.utf8Size_append]
            omega
          · intro d
            rw [Nesting.afterText_append, hgap, Nesting.afterText_append,
              hwhole.afterText hcomment, hdepth]
            rfl
        · rw [placedFrom_of_isGap _ Text.isGap_nil] at hbehind
          simp at hbehind

/-- What placed atoms tell of the characters of a text. -/
structure Describes (ps : List Placed) (t : Text) : Prop where
  /-- They are the atoms of the text. -/
  atoms : ps.map (·.atom) = atoms t
  /-- A character is quoted exactly if the token of a quoted run extends over it. -/
  quoted (front : Text) (c : Char) (behind : Text) : t = front ++ c :: behind →
    ((Quote.afterText none front).covers c = true ↔ IsQuotedAt front.utf8Size ps)
  /-- The delimiters among the tokens are the delimiters that are not quoted, in their places. -/
  delimiters : ps.filterMap Placed.delimiter? = t.unquoted.filter fun x => Token.isDelimiter x.2
  /-- A layout comes to each token at the depth that the unquoted characters before it lead to. -/
  depth (before : List Placed) (p : Placed) (behind : List Placed) : ps = before ++ p :: behind →
    ∃ front rest, t = front ++ (p.atom.token.source ++ rest) ∧ front.utf8Size = p.offset ∧
      Layout.depthBehind 0 (before.map (·.atom)) = front.unquotedDepth ∧
      ∀ indent, Layout.write indent 0 none (ps.map (·.atom)) =
        Layout.write indent 0 none (before.map (·.atom)) ++
          Layout.write indent front.unquotedDepth (Layout.tokenBehind none (before.map (·.atom)))
            (p.atom :: behind.map (·.atom))

/-- The tokens of a text without comments, each where it stands, describe its characters. -/
theorem describes_placed (t : Text) (hfree : ∀ token ∈ tokens t, token.isComment = false) :
    Describes (placed t) t where
  atoms := map_atom_placedFrom 0 t
  quoted front c behind hsplit := by
    have hquoted := covers_iff_isQuotedAt t hfree 0 hsplit
    rwa [Nat.zero_add] at hquoted
  delimiters := filterMap_delimiter?_placedFrom t hfree 0
  depth before p behind h := by
    obtain ⟨front, rest, hsplit, hoffset, hnesting⟩ := exists_of_placedFrom_eq_append t hfree 0 h
    have hdepth : Layout.depthBehind 0 (before.map (·.atom)) = front.unquotedDepth := by
      have hunquoted := Text.depth_afterText none 0 0 front
      rw [hnesting 0] at hunquoted
      exact hunquoted
    refine ⟨front, rest, hsplit, ?_, hdepth, ?_⟩
    · rwa [Nat.zero_add] at hoffset
    · intro indent
      rw [h, List.map_append, List.map_cons, Layout.write_append, hdepth]

/-- A text with a doubled quote, with quotes of the other kinds and delimiters in quoted runs, and
with a run that is never closed. -/
def runsWithin : Text := "f('it''s, \x60(', \x60;x\"\x60\"\"),é;'(\"\"".toList

def placesWithin : List Placed :=
  [⟨0, .word ['f'], false⟩, ⟨1, .openParen, false⟩, ⟨2, .quoted "'it''s, \x60('".toList, false⟩,
    ⟨13, .comma, false⟩, ⟨15, .quoted "\x60;x\"\x60".toList, true⟩,
    ⟨20, .quoted "\"\"".toList, false⟩, ⟨22, .closeParen, false⟩, ⟨23, .comma, false⟩,
    ⟨24, .word ['é'], false⟩, ⟨26, .semicolon, false⟩, ⟨27, .quoted "'(\"\"".toList, false⟩]

theorem describes_placesWithin : Describes placesWithin runsWithin := by
  have hfree : ∀ token ∈ tokens runsWithin, token.isComment = false := by decide +kernel
  have hplaced : placed runsWithin = placesWithin := by decide +kernel
  rw [← hplaced]
  exact describes_placed runsWithin hfree

end DdlDiagram
