import DdlDiagram.Reading
import DdlDiagram.Token.Lexer

/-!
# Tidy texts

A layout moves blanks, and some readers look at blanks: a blank ends a word, and one within a name
belongs to it. A text is tidy if the blanks that its readers look at are those that a layout
leaves there. Only the places that a diagram is read from count. What stands within parentheses
is free as far as no name is taken from it, and so is what stands outside of table bodies.
-/

namespace DdlDiagram
namespace Layout

/-- The gap of a layout between two characters that stay on one line. `spaced` tells whether
blanks separated them before. -/
def lineGap (before behind : Char) (spaced : Bool) : Text :=
  if before = ';' then "\n\n".toList
  else if before = '(' ∨ behind = ')' ∨ behind = ',' ∨ behind = ';' then []
  else if before = ')' ∨ before = ',' then [' ']
  else if spaced then [' '] else []

/-- Whether every gap between two characters outside of quoted runs passes a test, which is given
the nesting around the gap, the two characters and the gap. Neighbours have an empty gap between
them. The text continues another one, which ended in a character and a gap. -/
def gapsPass (test : Nesting → Char → Char → Text → Bool) (s : Nesting) (previous : Option Char)
    (gap : Text) : Text → Bool
  | [] => true
  | c :: rest =>
    if s.quote.isSome then gapsPass test (s.after c) (some c) [] rest
    else if isBlank c then gapsPass test s previous (gap ++ [c]) rest
    else previous.all (test s · c gap) && gapsPass test (s.after c) (some c) [] rest

/-- Whether the gaps of a text are the ones that a layout leaves on a line. -/
def isSettled (t : Text) : Bool :=
  gapsPass (fun _ b c g => g == lineGap b c (!g.isEmpty)) .top none [] t

/-- Whether a layout leaves the words of a text apart and whole: it neither takes a gap at top
level away nor puts one there. -/
def keepsWords (t : Text) : Bool :=
  gapsPass (fun s b c g => s.depth != 0 || g.isEmpty == (lineGap b c (!g.isEmpty)).isEmpty)
    .top none [] t

/-- Whether a text has a `(` outside of the quoted runs. The first run may be open. -/
def opens (q : Quote) : Text → Bool
  | [] => false
  | c :: rest => (!q.covers c && c == '(') || opens (q.after c) rest

/-- Whether the first `(` of a word, if it opens a group at all, is not a quoted one. -/
def opensBare (word : Text) : Bool :=
  !opens none word || (Quote.afterText none (word.takeWhile (· != '('))).isNone

/-- Whether the names in the group of a word are settled. -/
def listsSettled (word : Text) : Bool :=
  word.group?.all fun body => (body.partsBetween ',').all fun part => isSettled part.trim.beforeGroup

/-- Whether the names are settled that a declaration takes from its words: the name of a column, or
the columns of a key. -/
def namesSettled (words : List Text) : Declaration → Bool
  | .column _ => words.head?.all isSettled
  | .primaryKey _ => words.all listsSettled
  | .foreignKey _ _ => words.all listsSettled
  | .ignored => true
  | .unknown _ => true

/-- Whether a layout does not change what a declaration says. -/
def isTidyDeclaration (t : Text) : Bool :=
  keepsWords t && t.words.all opensBare && namesSettled t.words (Declaration.ofText t)

/-- Whether a name has no blanks but single spaces, and neither quotes nor delimiters. -/
def isPlainName (behindBlank : Bool) : Text → Bool
  | [] => true
  | c :: rest =>
    if isBlank c then c == ' ' && !behindBlank && isPlainName true rest
    else !isQuote c && !Token.isDelimiter c && isPlainName false rest

/-- The part of a chunk in front of the table body, given the text that starts with the body. -/
def headOf (chunk body : Text) : Text := chunk.take (chunk.length - body.length)

/-- Whether the part of a chunk in front of the table body closes its quotes, and a name between
square brackets, which are no quotes for a layout, is plain. -/
def isTidyHead (name head : Text) : Bool :=
  (Quote.afterText none head).isNone && (!head.contains '[' || isPlainName false name)

/-- The text from the first group behind the name of a table on. -/
def groupOf (chunk : Text) : Text :=
  match TableBody.name? (TableBody.behindIfNotExists chunk.trimStart) with
  | none => []
  | some (_, rest) => rest.dropWhile (· != '(')

/-- Whether a layout does not change what a chunk declares. -/
def isTidyChunk (chunk : Text) : Bool :=
  match TableBody.ofChunk chunk with
  | .error _ => true
  | .ok body =>
    isTidyHead body.name (headOf chunk (groupOf chunk)) && body.declarations.all isTidyDeclaration

/-- Whether the mark of a comment stands anywhere in a text. -/
def hasMark : Text → Bool
  | [] => false
  | c :: rest =>
    Token.startsLineComment (c :: rest) || Token.startsBlockComment (c :: rest) || hasMark rest

/-- Whether the quoted runs of a text keep to their lines, or none of them holds the mark of a
comment. Cleaning ends a run with its line, so behind a run over several lines it may find marks
within quotes. -/
def quotesTidy (t : Text) : Bool :=
  ((tokens t).all fun
    | .quoted run => !run.contains '\n'
    | _ => true) ||
  (tokens t).all fun
    | .quoted run => !hasMark run
    | _ => true

/-- Whether a layout does not change what a text declares. -/
def isTidy (t : Text) : Bool := quotesTidy t && (Statement.chunks t).all isTidyChunk

end Layout
end DdlDiagram
