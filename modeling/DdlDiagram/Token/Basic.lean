import DdlDiagram.Text.Basic

/-!
# Tokens

A token keeps its source text, comments and quoted runs included, so that a text laid out anew
says what it said before. Blanks between tokens are not kept; an atom only remembers whether
there were any.
-/

namespace DdlDiagram

/-- A piece of text that a layout never takes apart. -/
inductive Token where
  | word (text : Text)
  /-- A literal or identifier between quotes, which are part of the text. -/
  | quoted (text : Text)
  | lineComment (text : Text)
  | blockComment (text : Text)
  | openParen
  | closeParen
  | comma
  | semicolon
  deriving DecidableEq, Repr

/-- A token and whether blanks separate it from what stands before it. -/
structure Atom where
  token : Token
  spaced : Bool
  deriving DecidableEq, Repr

namespace Token

def source : Token → Text
  | word t => t
  | quoted t => t
  | lineComment t => t
  | blockComment t => t
  | openParen => ['(']
  | closeParen => [')']
  | comma => [',']
  | semicolon => [';']

/-- Whether the token is a word, a quoted run or a block comment: the tokens that are set side
by side as running text. -/
def isRunning : Token → Bool
  | word _ => true
  | quoted _ => true
  | blockComment _ => true
  | _ => false

def isComment : Token → Bool
  | lineComment _ => true
  | blockComment _ => true
  | _ => false

/-- The depth of parentheses after a token, where a `)` with nothing open closes nothing. -/
def depthAfter (d : Nat) : Token → Nat
  | openParen => d + 1
  | closeParen => d - 1
  | _ => d

end Token
end DdlDiagram
