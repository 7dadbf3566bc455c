import Preload.ImportStyle
import Preload.Text.Size
/-!
# Tokens

A script is cut into tokens only as finely as it takes to find the ends of its top-level statements:
words, numbers, string, template and regex literals, comments, brackets, semicolons and line breaks.
Everything else is operator text in runs (`Token.Kind.punct`).

A token keeps the blanks before it, so that the tokens of a source still hold its whole text.
-/

namespace Preload

/-- The three pairs of brackets. -/
inductive Bracket where
  | round
  | curly
  | square
  deriving DecidableEq, Repr, Inhabited

namespace Bracket

/-- The character that opens the pair. -/
def opener : Bracket → Char
  | round => '('
  | curly => '{'
  | square => '['

/-- The character that closes the pair. -/
def closer : Bracket → Char
  | round => ')'
  | curly => '}'
  | square => ']'

/-- The pair that `c` opens. -/
def ofOpener? (c : Char) : Option Bracket :=
  if c = '(' then some round else if c = '{' then some curly else if c = '[' then some square
  else none

/-- The pair that `c` closes. -/
def ofCloser? (c : Char) : Option Bracket :=
  if c = ')' then some round else if c = '}' then some curly else if c = ']' then some square
  else none

end Bracket

namespace Token

/-- What a token is. -/
inductive Kind where
  /-- The bare word `require` or `import`. -/
  | keyword (style : ImportStyle)
  /-- Any other word. -/
  | ident
  | number
  /-- A string literal, quotes included. -/
  | string
  | template
  | lineComment
  | blockComment
  /-- A regex literal, flags included. -/
  | regex
  | opening (bracket : Bracket)
  | closing (bracket : Bracket)
  | semicolon
  | newline
  /-- A slash that divides. -/
  | slash
  /-- A run of operator characters, or of anything that no other kind takes. -/
  | punct
  deriving DecidableEq, Repr, Inhabited

namespace Kind

/-- Whether tokens of this kind are comments. -/
def isComment : Kind → Bool
  | lineComment | blockComment => true
  | _ => false

/-- Whether tokens of this kind say nothing about the code: comments and line breaks. -/
def isTrivia (k : Kind) : Bool :=
  k.isComment || k == newline

/-- Whether a statement that ends in a token of this kind carries on after a line break. -/
def carriesOn : Kind → Bool
  | slash | punct => true
  | _ => false

end Kind

end Token

/-- A lexeme with its place in the source. -/
structure Token where
  /-- The blanks between the token before and this one. -/
  gap : List Char
  kind : Token.Kind
  /-- The text of the token itself. -/
  text : List Char
  /-- The position of the token's first byte. -/
  start : Nat
  deriving DecidableEq, Repr, Inhabited

namespace Token

/-- The position just past the token. -/
def stop (t : Token) : Nat :=
  t.start + byteLength t.text

/-- Whether the token is a comment. -/
def isComment (t : Token) : Bool :=
  t.kind.isComment

/-- Whether the token is a comment or a line break. -/
def isTrivia (t : Token) : Bool :=
  t.kind.isTrivia

end Token

end Preload
