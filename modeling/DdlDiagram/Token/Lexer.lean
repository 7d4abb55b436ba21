import DdlDiagram.Nesting.Quote
import DdlDiagram.Token.Basic

/-!
# Reading tokens

A text is read as a sequence of tokens with blanks between them. Reading never fails: a quoted
run or block comment that is not closed extends to the end of the text, and every other
character can stand in a word. Each reader returns what it took and the rest, which together
are the text it was given.
-/

namespace DdlDiagram
namespace Token

def startsLineComment (t : Text) : Bool := "--".toList.isPrefixOf t

def startsBlockComment (t : Text) : Bool := "/*".toList.isPrefixOf t

/-- Whether a character is a token of its own. -/
def isDelimiter (c : Char) : Bool := c == '(' || c == ')' || c == ',' || c == ';'

/-- Whether a word that has come to this point ends here. -/
def endsWord : Text → Bool
  | [] => true
  | c :: rest =>
    isBlank c || isDelimiter c || isQuote c || startsLineComment (c :: rest) ||
      startsBlockComment (c :: rest)

def wordRun : Text → Text × Text
  | [] => ([], [])
  | c :: rest =>
    if endsWord (c :: rest) then ([], c :: rest) else (wordRun rest).map (c :: ·) id

/-- The text up to and with the quote that ends a run opened by `quote`. Two quotes in a row
stand for one and do not end the run. -/
def quotedRun (quote : Char) : Text → Text × Text
  | [] => ([], [])
  | c :: rest =>
    if c = quote then
      match rest with
      | [] => ([c], [])
      | d :: others =>
        if d = quote then (quotedRun quote others).map (c :: d :: ·) id else ([c], d :: others)
    else (quotedRun quote rest).map (c :: ·) id

/-- The text up to and with the mark that ends a block comment. -/
def commentRun : Text → Text × Text
  | [] => ([], [])
  | c :: rest =>
    if "*/".toList.isPrefixOf (c :: rest) then (c :: rest.take 1, rest.drop 1)
    else (commentRun rest).map (c :: ·) id

/-- The token at the start of a text that does not start with a blank, and the rest. A line
comment ends before the line feed and loses its trailing blanks. -/
def next? : Text → Option (Token × Text)
  | [] => none
  | c :: rest =>
    if c = '(' then some (openParen, rest)
    else if c = ')' then some (closeParen, rest)
    else if c = ',' then some (comma, rest)
    else if c = ';' then some (semicolon, rest)
    else if isQuote c then
      let run := quotedRun c rest
      some (quoted (c :: run.1), run.2)
    else if startsLineComment (c :: rest) then
      some (lineComment (Text.trimEnd (c :: rest.takeWhile (· != '\n'))),
        rest.dropWhile (· != '\n'))
    else if startsBlockComment (c :: rest) then
      let run := commentRun (rest.drop 1)
      some (blockComment (c :: rest.take 1 ++ run.1), run.2)
    else
      let run := wordRun rest
      some (word (c :: run.1), run.2)

/-- Nothing is lost between a run and the rest. -/
theorem wordRun_append (t : Text) : (wordRun t).1 ++ (wordRun t).2 = t := by
  induction t with
  | nil => rfl
  | cons c rest ih => rw [wordRun]; split <;> simp [ih]

theorem quotedRun_append (quote : Char) (t : Text) :
    (quotedRun quote t).1 ++ (quotedRun quote t).2 = t := by
  fun_induction quotedRun quote t <;> simp_all

theorem commentRun_append (t : Text) : (commentRun t).1 ++ (commentRun t).2 = t := by
  induction t with
  | nil => rfl
  | cons c rest ih =>
    rw [commentRun]
    split
    · exact congrArg (c :: ·) (List.take_append_drop 1 rest)
    · simp [ih]

/-- Reading a token takes at least one character. -/
theorem length_lt_of_next? {t rest : Text} {token : Token} (h : next? t = some (token, rest)) :
    rest.length < t.length := by
  cases t with
  | nil => simp [next?] at h
  | cons c t =>
    have hq := congrArg List.length (quotedRun_append c t)
    have hc := congrArg List.length (commentRun_append (t.drop 1))
    have hw := congrArg List.length (wordRun_append t)
    have hl := (List.dropWhile_suffix (· != '\n') (l := t)).length_le
    simp only [List.length_append, List.length_drop] at hq hc hw
    simp only [List.length_cons]
    rw [next?] at h
    repeat' split at h
    all_goals
      simp only [Option.some.injEq, Prod.mk.injEq] at h
      obtain ⟨-, rfl⟩ := h
      omega

end Token

/-- The tokens of a text, each with the blanks before it noted. -/
def atoms (t : Text) : List Atom :=
  match _h : Token.next? t.trimStart with
  | none => []
  | some (token, rest) => ⟨token, t.startsBlank⟩ :: atoms rest
termination_by t.length
decreasing_by
  exact Nat.lt_of_lt_of_le (Token.length_lt_of_next? _h) (Text.length_trimStart_le t)

def tokens (t : Text) : List Token := (atoms t).map (·.token)

end DdlDiagram
