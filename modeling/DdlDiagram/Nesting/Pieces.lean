import DdlDiagram.Nesting.Basic

/-!
# Pieces and words

A text is cut at top level: at characters that are unquoted and leave no parenthesis open. The
pieces are the parts between the cuts, the words the parts between blanks. `DECIMAL(10, 2)` and
`'no default'` are one word each, and a comma within them makes no cut.
-/

namespace DdlDiagram
namespace Nesting

/-- The pieces of a text between the characters at top level that satisfy `cut`, of which there
is always at least one. -/
def pieces (cut : Char → Bool) (s : Nesting) : Text → List Text
  | [] => [[]]
  | c :: rest =>
    if s.atTop c && cut c then [] :: pieces cut (s.after c) rest
    else Text.consHead c (pieces cut (s.after c) rest)

@[simp] theorem pieces_ne_nil (cut : Char → Bool) (s : Nesting) (t : Text) :
    pieces cut s t ≠ [] := by
  cases t with
  | nil => simp [pieces]
  | cons c rest => rw [pieces]; split <;> simp

/-- A cut splits the pieces of the two sides: behind it the text is read as from its start. -/
theorem pieces_append_cons {cut : Char → Bool} {s : Nesting} {t : Text} {c : Char}
    (hopen : (s.afterText t).atTop c = true) (hcut : cut c = true) (u : Text) :
    pieces cut s (t ++ c :: u) = pieces cut s t ++ pieces cut top u := by
  induction t generalizing s with
  | nil =>
    rw [afterText_nil] at hopen
    simp [pieces, hopen, hcut, after_eq_top_of_atTop hopen]
  | cons d rest ih =>
    have hrest := ih hopen
    simp only [List.cons_append, pieces, hrest]
    split
    · rfl
    · exact Text.consHead_append (pieces_ne_nil cut (s.after d) rest) d _

end Nesting

namespace Text

/-- The parts of a text between the occurrences of `sep` at top level. -/
def partsBetween (sep : Char) (t : Text) : List Text := Nesting.top.pieces (· == sep) t

/-- The parts of a text between blanks at top level. -/
def words (t : Text) : List Text := (Nesting.top.pieces isBlank t).filter (!·.isEmpty)

theorem partsBetween_ne_nil (sep : Char) (t : Text) : partsBetween sep t ≠ [] := by
  simp [partsBetween]

theorem ne_nil_of_mem_words {t word : Text} (h : word ∈ words t) : word ≠ [] := by
  simpa using (List.mem_filter.1 h).2

/-- A blank at top level ends a word and starts no other one. -/
theorem words_append_cons {t : Text} {c : Char} (hopen : (Nesting.top.afterText t).atTop c = true)
    (hblank : isBlank c = true) (u : Text) : words (t ++ c :: u) = words t ++ words u := by
  simp [words, Nesting.pieces_append_cons hopen hblank]

/-- The pieces, with the separator between neighbours, are the text. -/
theorem join_pieces (sep : Char) (s : Nesting) (t : Text) :
    join [sep] (s.pieces (· == sep) t) = t := by
  induction t generalizing s with
  | nil => rfl
  | cons c rest ih =>
    have hne := Nesting.pieces_ne_nil (· == sep) (s.after c) rest
    rw [Nesting.pieces]
    split
    · rename_i hc
      rw [Bool.and_eq_true, beq_iff_eq] at hc
      rw [join_cons_of_ne_nil hne, ih, hc.2]
      rfl
    · rw [join_consHead hne, ih]

/-- The parts between separators, with the separator between neighbours, are the text. -/
@[simp] theorem join_partsBetween (sep : Char) (t : Text) :
    join [sep] (partsBetween sep t) = t := join_pieces sep .top t

end Text
end DdlDiagram
