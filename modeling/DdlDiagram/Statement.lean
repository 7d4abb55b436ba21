import DdlDiagram.Keyword

/-!
# Statements

A text declares a table wherever the words `CREATE TABLE` stand, with `TEMPORARY` or `TEMP`
between them or not. Such a place is a boundary if it lies outside quoted runs. The text is
partitioned at its boundaries: a preamble, and for each boundary a chunk that runs from behind
the word `TABLE` to the next boundary or the end of the text. Nothing else ends a chunk, so it
may hold statements of other kinds behind its table.
-/

namespace DdlDiagram
namespace Statement

/-- The text without leading blanks, of which there has to be at least one. -/
def skipBlanks? (t : Text) : Option Text :=
  if t.startsBlank then some t.trimStart else none

/-- The text behind the words `CREATE TABLE` that a text starts with, if it does. -/
def behindHeader? (t : Text) : Option Text := do
  let t ← skipBlanks? (← Keyword.create.strip? t)
  let t ← match Keyword.temporary.strip? t <|> Keyword.temp.strip? t with
    | some rest => skipBlanks? rest
    | none => some t
  Keyword.table.strip? t

theorem length_le_of_skipBlanks? {t rest : Text} (h : skipBlanks? t = some rest) :
    rest.length ≤ t.length := by
  obtain ⟨-, heq⟩ := Option.ite_none_right_eq_some.1 h
  rw [← Option.some.inj heq]
  exact Text.length_trimStart_le t

/-- The words `CREATE TABLE` take at least one character. -/
theorem length_lt_of_behindHeader? {t rest : Text} (h : behindHeader? t = some rest) :
    rest.length < t.length := by
  obtain ⟨behindCreate, hcreate, h⟩ := Option.bind_eq_some_iff.1 h
  obtain ⟨next, hnext, h⟩ := Option.bind_eq_some_iff.1 h
  have hfirst := Keyword.length_lt_of_strip? hcreate
  have hblanks := length_le_of_skipBlanks? hnext
  dsimp only at h
  split at h
  · rename_i behind hmodifier
    obtain ⟨last, hlast, htable⟩ := Option.bind_eq_some_iff.1 h
    have hlater := length_le_of_skipBlanks? hlast
    have hword := Keyword.length_lt_of_strip? htable
    have hshorter : behind.length < next.length := by
      cases hlong : Keyword.temporary.strip? next with
      | some _ =>
        rw [hlong] at hmodifier
        exact Keyword.length_lt_of_strip? (hlong.trans hmodifier)
      | none =>
        rw [hlong] at hmodifier
        exact Keyword.length_lt_of_strip? hmodifier
    omega
  · have hword := Keyword.length_lt_of_strip? h
    omega

/-- The text before the first word `CREATE` outside quoted runs, and the text from that word on.
`quote` is the quoted run open at the start, `previous` the character before it. -/
def splitAtCreate? (quote : Quote) (previous : Option Char) : Text → Option (Text × Text)
  | [] => none
  | c :: rest =>
    if !quote.covers c && !previous.any isIdentifierChar &&
        (Keyword.create.strip? (c :: rest)).isSome then
      some ([], c :: rest)
    else
      (splitAtCreate? (quote.after c) (some c) rest).map fun (before, found) => (c :: before, found)

/-- The two parts are the text, and the second one starts with the word. -/
theorem splitAtCreate?_spec {quote : Quote} {previous : Option Char} {t before found : Text}
    (h : splitAtCreate? quote previous t = some (before, found)) :
    t = before ++ found ∧ (Keyword.create.strip? found).isSome = true := by
  induction t generalizing quote previous before with
  | nil => exact nomatch h
  | cons c rest ih =>
    rw [splitAtCreate?] at h
    split at h
    · rename_i hcreate
      obtain ⟨rfl, rfl⟩ := Prod.mk.inj (Option.some.inj h)
      exact ⟨rfl, (Bool.and_eq_true_iff.1 hcreate).2⟩
    · obtain ⟨⟨before', found'⟩, hrest, heq⟩ := Option.map_eq_some_iff.1 h
      obtain ⟨rfl, rfl⟩ := Prod.mk.inj heq
      obtain ⟨hsplit, hword⟩ := ih hrest
      exact ⟨congrArg (c :: ·) hsplit, hword⟩

/-- A text cut at its boundaries: the preamble, and the chunk behind each boundary. The search
for the next boundary starts anew behind the last one, and behind a word `CREATE` that starts
none. -/
def cut (t : Text) : Text × List Text :=
  match _hfound : splitAtCreate? none none t with
  | none => (t, [])
  | some (before, found) =>
    match _hheader : behindHeader? found with
    | some rest =>
      let others := cut rest
      (before, others.1 :: others.2)
    | none =>
      let others := cut (found.drop Keyword.create.spelling.length)
      (before ++ found.take Keyword.create.spelling.length ++ others.1, others.2)
termination_by t.length
decreasing_by
  · have hlength := congrArg List.length (splitAtCreate?_spec _hfound).1
    have hrest := length_lt_of_behindHeader? _hheader
    rw [List.length_append] at hlength
    omega
  · obtain ⟨hsplit, hword⟩ := splitAtCreate?_spec _hfound
    obtain ⟨rest, hrest⟩ := Option.isSome_iff_exists.1 hword
    have hlength := congrArg List.length hsplit
    have hfound := Keyword.length_lt_of_strip? hrest
    have hcreate : 0 < Keyword.create.spelling.length := by decide
    rw [List.length_append] at hlength
    rw [List.length_drop]
    omega

/-- The chunks of a text, one for each boundary, without the words of the boundary. -/
def chunks (t : Text) : List Text := (cut t).2

end Statement
end DdlDiagram
