import ScriptScanner.Text
set_option autoImplicit false

/-!
# Operators and punctuators

Each operator has one spelling and one name, and no two share either.  Every beginning of a spelling
is itself a spelling (`!==` has `!=` and `!`), so the longest operator at the front of a text can be
found one unit at a time, without going back.

Some operators combine with an equals sign that follows them into a compound assignment.
-/

namespace ScriptScanner

/-- An operator or punctuator. -/
inductive Operator where
  | semicolon | comma | question | colon | dot | leftBracket | rightBracket | leftBrace
  | rightBrace | leftParen | rightParen | or | and | not | bitwiseOr | bitwiseXor | bitwiseAnd
  | bitwiseNot | leftShift | rightShift | unsignedRightShift | strictEqual | equal
  | strictNotEqual | notEqual | lessEqual | less | greaterEqual | greater | assign | increment
  | decrement | plus | minus | times | divide | remainder
  deriving DecidableEq, Repr, Inhabited

namespace Operator

/-- The text of the operator in a source. -/
def spelling : Operator → Text
  | .semicolon => ";"
  | .comma => ","
  | .question => "?"
  | .colon => ":"
  | .dot => "."
  | .leftBracket => "["
  | .rightBracket => "]"
  | .leftBrace => "\x7b"
  | .rightBrace => "\x7d"
  | .leftParen => "("
  | .rightParen => ")"
  | .or => "||"
  | .and => "&&"
  | .not => "!"
  | .bitwiseOr => "|"
  | .bitwiseXor => "^"
  | .bitwiseAnd => "&"
  | .bitwiseNot => "~"
  | .leftShift => "<<"
  | .rightShift => ">>"
  | .unsignedRightShift => ">>>"
  | .strictEqual => "==="
  | .equal => "=="
  | .strictNotEqual => "!=="
  | .notEqual => "!="
  | .lessEqual => "<="
  | .less => "<"
  | .greaterEqual => ">="
  | .greater => ">"
  | .assign => "="
  | .increment => "++"
  | .decrement => "--"
  | .plus => "+"
  | .minus => "-"
  | .times => "*"
  | .divide => "/"
  | .remainder => "%"

/-- The name of the operator's kind of token. -/
def name : Operator → Text
  | .semicolon => "semicolon"
  | .comma => "comma"
  | .question => "hook"
  | .colon => "colon"
  | .dot => "dot"
  | .leftBracket => "left_bracket"
  | .rightBracket => "right_bracket"
  | .leftBrace => "left_curly"
  | .rightBrace => "right_curly"
  | .leftParen => "left_paren"
  | .rightParen => "right_paren"
  | .or => "or"
  | .and => "and"
  | .not => "not"
  | .bitwiseOr => "bitwise_or"
  | .bitwiseXor => "bitwise_xor"
  | .bitwiseAnd => "bitwise_and"
  | .bitwiseNot => "bitwise_not"
  | .leftShift => "lsh"
  | .rightShift => "rsh"
  | .unsignedRightShift => "ursh"
  | .strictEqual => "strict_eq"
  | .equal => "eq"
  | .strictNotEqual => "strict_ne"
  | .notEqual => "ne"
  | .lessEqual => "le"
  | .less => "lt"
  | .greaterEqual => "ge"
  | .greater => "gt"
  | .assign => "assign"
  | .increment => "increment"
  | .decrement => "decrement"
  | .plus => "plus"
  | .minus => "minus"
  | .times => "mul"
  | .divide => "div"
  | .remainder => "mod"

/-- Every operator. -/
def all : List Operator :=
  [.semicolon, .comma, .question, .colon, .dot, .leftBracket, .rightBracket, .leftBrace,
   .rightBrace, .leftParen, .rightParen, .or, .and, .not, .bitwiseOr, .bitwiseXor, .bitwiseAnd,
   .bitwiseNot, .leftShift, .rightShift, .unsignedRightShift, .strictEqual, .equal,
   .strictNotEqual, .notEqual, .lessEqual, .less, .greaterEqual, .greater, .assign, .increment,
   .decrement, .plus, .minus, .times, .divide, .remainder]

/-- Whether an equals sign after the operator makes a compound assignment of it. -/
def compounds : Operator → Bool
  | .bitwiseOr | .bitwiseXor | .bitwiseAnd | .leftShift | .rightShift | .unsignedRightShift
  | .plus | .minus | .times | .divide | .remainder => true
  | _ => false

/-- The operator that a text spells, if it spells one. -/
def ofSpelling? (t : Text) : Option Operator := all.find? fun o => o.spelling = t

/-- The text of the compound assignment that an operator makes. -/
def compoundSpelling (o : Operator) : Text := o.spelling ++ [CodeUnit.equals]

/-- The operators that make compound assignments, by the order of their spellings as texts. -/
def compoundable : List Operator :=
  (all.filter compounds).mergeSort fun o p => decide (o.spelling ≤ p.spelling)

/-- The greatest length of a spelling. -/
def maxLength : Nat := 3

theorem length_spelling_le (o : Operator) : o.spelling.length ≤ maxLength := by
  cases o <;> decide

theorem spelling_ne_nil (o : Operator) : o.spelling ≠ [] := by cases o <;> decide

theorem mem_all (o : Operator) : o ∈ all := by cases o <;> decide

@[simp] theorem ofSpelling?_spelling (o : Operator) : ofSpelling? o.spelling = some o := by
  cases o <;> rfl

theorem spelling_injective {o p : Operator} (h : o.spelling = p.spelling) : o = p := by
  have ho := ofSpelling?_spelling o
  rw [h, ofSpelling?_spelling] at ho
  exact (Option.some.inj ho).symm

/-- A text spells an operator exactly if it is the operator's spelling. -/
theorem ofSpelling?_eq_some_iff {t : Text} {o : Operator} :
    ofSpelling? t = some o ↔ t = o.spelling := by
  constructor
  · intro h
    have hs := List.find?_some (by simpa only [ofSpelling?] using h)
    exact (of_decide_eq_true hs).symm
  · rintro rfl
    exact ofSpelling?_spelling o

end Operator

end ScriptScanner
