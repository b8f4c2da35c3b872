import ScriptScanner.Token
set_option autoImplicit false

/-!
# Where an operand may stand

A slash divides after a token that completes an operand, and opens a regular expression
everywhere else.  A rule decides which it is before each scan; it is told how often it was asked
before and which token came last, line breaks aside.  The rule of this library looks at the kind
of the last token alone; a closing brace is taken for the end of an object, so a slash after it
divides.
-/

namespace ScriptScanner

/-- The keywords that are operands by themselves. -/
def Keyword.isOperand : Keyword → Bool
  | .thisWord | .nullWord | .trueWord | .falseWord => true
  | _ => false

/-- The operators that come last in an operand. -/
def Operator.closesOperand : Operator → Bool
  | .rightParen | .rightBracket | .rightBrace | .increment | .decrement => true
  | _ => false

/-- Whether a token of this kind completes an operand. -/
def TokenKind.completesOperand : TokenKind → Bool
  | .identifier | .number | .string | .regExp => true
  | .newline | .endOfSource => false
  | .operator o => o.closesOperand
  | .keyword k => k.isOperand

/-- Whether an operand may follow a token, or begin a source. -/
def expectsOperand (previous : Option TokenKind) : Bool :=
  match previous with
  | none => true
  | some k => !k.completesOperand

/-- The same for a kind given by name; a name that no kind has completes no operand. -/
def expectsOperandAfterName (previous : Option Text) : Bool :=
  expectsOperand (previous.bind TokenKind.ofName?)

/-- Decides before each scan whether an operand may stand there. -/
abbrev OperandRule := Nat → Option Token → Bool

/-- The rule that looks at the kind of the last token. -/
def OperandRule.default : OperandRule := fun _ previous =>
  expectsOperand (previous.map fun t => t.kind)

end ScriptScanner
