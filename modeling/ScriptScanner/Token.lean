import ScriptScanner.Double
import ScriptScanner.Location
import ScriptScanner.Token.Kind
set_option autoImplicit false

/-!
# Lexemes and tokens

A lexeme is what a token is apart from where it stands: its kind, its content, and two details
that only some kinds have.  A token adds the range of the source that it covers, the position of
its first unit, and the comments that were skipped right before it.  Reading a lexeme never looks
at positions, so the same text gives the same lexeme anywhere.
-/

namespace ScriptScanner

/-- What a token says: a decoded or verbatim text, or the value of a number. -/
inductive Content where
  | text (t : Text)
  | number (d : Double)
  deriving DecidableEq, Repr, Inhabited

/-- A token apart from its place. -/
structure Lexeme where
  kind : TokenKind
  content : Content
  /-- `int` or `float` for numbers, `single` or `double` for strings, the flags of a regular
  expression, and empty for all others. -/
  variant : Text := []
  /-- The operator that a compound assignment applies. -/
  applies : Option TokenKind := none
  deriving DecidableEq, Repr, Inhabited

/-- A lexeme in its place. -/
structure Token extends Lexeme, Position where
  /-- Offset of the first unit. -/
  start : Int
  /-- Offset after the last unit. -/
  stop : Int
  /-- The raw texts of the comments right before the token, in order. -/
  comments : List Text := []
  deriving DecidableEq, Repr, Inhabited

namespace Lexeme

/-- The token that a lexeme makes at a location. -/
def tokenAt (x : Lexeme) (location : Location) (stop : Int) : Token :=
  { toLexeme := x, toPosition := location.toPosition, start := location.offset, stop }

end Lexeme

namespace Token

/-- The same token after other comments; without any, the token keeps what it has. -/
def withComments (t : Token) (comments : List Text) : Token :=
  if comments.isEmpty then t else { t with comments }

/-- The place of the token's first unit. -/
def location (t : Token) : Location := { toPosition := t.toPosition, offset := t.start }

end Token

end ScriptScanner
