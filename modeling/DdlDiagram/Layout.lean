import DdlDiagram.Keyword
import DdlDiagram.Token.Lexer

/-!
# Laying out a text

A text is laid out by writing its tokens anew with gaps of fixed form between them. The
declarations of a table body each get a line of their own; what is nested deeper stays on the
line it starts on. A gap depends only on the two tokens it separates, on the depth between them
and, where two running tokens meet, on whether blanks separated them before.
-/

namespace DdlDiagram
namespace Layout

/-- Whether a line break is due behind a token: it opened a table body or ended a declaration
of one. -/
def breaksAfter (depth : Nat) (previous : Token) : Bool :=
  depth == 1 && (previous == .openParen || previous == .comma)

def newLine (indent depth : Nat) : Text :=
  '\n' :: (if depth = 0 then [] else List.replicate indent ' ')

/-- The gap before running text or an opening parenthesis that stays on its line. Behind a
group at depth zero the word `CREATE` is taken for a new statement, although no semicolon says
so. -/
def gapInLine (depth : Nat) (previous : Token) (atom : Atom) : Text :=
  match previous, atom.token with
  | .closeParen, .word t =>
    if depth = 0 && Keyword.create.is t then "\n\n".toList else [' ']
  | .closeParen, _ => [' ']
  | .comma, _ => [' ']
  | .openParen, _ => []
  | _, .openParen => if depth = 0 || atom.spaced then [' '] else []
  | _, _ => if atom.spaced then [' '] else []

/-- The gap between a token and the one before it, at the depth between the two. -/
def gap (indent depth : Nat) (previous : Token) (atom : Atom) : Text :=
  match previous, atom.token with
  | .semicolon, _ => "\n\n".toList
  | .lineComment _, .closeParen => ['\n']
  | .lineComment _, .comma => ['\n']
  | .lineComment _, .semicolon => ['\n']
  | .lineComment _, _ => newLine indent depth
  | _, .lineComment _ => [' ']
  | _, .closeParen => if depth = 1 then ['\n'] else []
  | _, .comma => if breaksAfter depth previous then ['\n'] else []
  | _, .semicolon => if breaksAfter depth previous then ['\n'] else []
  | _, _ =>
    if breaksAfter depth previous then newLine indent depth
    else gapInLine depth previous atom

/-- The tokens with their gaps, behind a token and at a depth. Nothing stands before the first
token of a text. -/
def write (indent depth : Nat) (previous : Option Token) : List Atom → Text
  | [] => []
  | atom :: rest =>
    (match previous with
      | none => []
      | some token => gap indent depth token atom) ++
    atom.token.source ++
    write indent (atom.token.depthAfter depth) (some atom.token) rest

def defaultIndent : Nat := 4

end Layout

/-- The text laid out anew, with table bodies indented by `indent` spaces. -/
def Text.format (indent : Nat) (t : Text) : Text :=
  Text.trimEnd (Layout.write indent 0 none (atoms t))

end DdlDiagram
