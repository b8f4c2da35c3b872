import ScriptScanner.Token
import ScriptScanner.Value
set_option autoImplicit false

/-!
# Tokens for hosts

A host sees a token with names in place of kinds, and its content as a value like any other.  A
host may also make such tokens by itself; nothing limits the names and the value that it gives
them.  For the tokens that this library makes, making one and showing it can be done in either
order.
-/

namespace ScriptScanner

/-- A content as a value. -/
def Content.value : Content → Value
  | text t => .text t
  | number d => .number d

/-- A token as a host sees it. -/
structure HostToken extends Position where
  /-- The name of the token's kind. -/
  kind : Text
  value : Value
  variant : Text
  /-- The name of the operator that a compound assignment applies. -/
  applies : Option Text
  start : Int
  stop : Int
  comments : List Text := []
  deriving Repr, Inhabited

namespace HostToken

/-- The token of a host's own making that covers a range of a source. -/
def make (kind : Text) (value : Value) (location : Location) (stop : Int) (variant : Text)
    (applies : Option Text) : HostToken :=
  { toPosition := location.toPosition, kind, value, variant, applies,
    start := location.offset, stop }

/-- The same token after other comments; without any, the token keeps what it has. -/
def withComments (t : HostToken) (comments : List Text) : HostToken :=
  if comments.isEmpty then t else { t with comments }

end HostToken

/-- What a host sees of a token. -/
def Token.forHost (t : Token) : HostToken :=
  { toPosition := t.toPosition
    kind := t.kind.name
    value := t.content.value
    variant := t.variant
    applies := t.applies.map TokenKind.name
    start := t.start
    stop := t.stop
    comments := t.comments }

/-- A lexeme in its place looks like the token that a host would make of the same parts. -/
theorem Lexeme.forHost_tokenAt (x : Lexeme) (location : Location) (stop : Int) :
    (x.tokenAt location stop).forHost =
      HostToken.make x.kind.name x.content.value location stop x.variant
        (x.applies.map TokenKind.name) := rfl

theorem Token.forHost_withComments (t : Token) (comments : List Text) :
    (t.withComments comments).forHost = t.forHost.withComments comments := by
  unfold Token.withComments HostToken.withComments
  split <;> rfl

end ScriptScanner
