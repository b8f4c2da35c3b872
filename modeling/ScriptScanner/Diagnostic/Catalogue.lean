import ScriptScanner.Text
set_option autoImplicit false

/-!
# The catalogue of diagnostics

Every condition that can be reported has an entry: an identifier by which hosts refer to it, a
category, which is also the letter of the identifier, the kind of problem, and the texts that
explain it.  Two conditions may be of one kind.
-/

namespace ScriptScanner

/-- Who is at fault: the source text, the order of its tokens, or the host. -/
inductive Category where
  | lexer
  | parse
  | internal
  deriving DecidableEq, Repr, Inhabited

/-- The kind of a problem. -/
inductive Problem where
  | illegalToken
  | unterminatedComment
  | unterminatedString
  | unterminatedRegExp
  | unterminatedClass
  | missingExponentDigits
  | missingExpectedToken
  | lookaheadOverflow
  | emptyPushback
  deriving DecidableEq, Repr, Inhabited

/-- The conditions of the catalogue. -/
inductive Code where
  | illegalCharacter
  | unterminatedComment
  | unterminatedString
  | unterminatedRegExp
  | unterminatedClass
  | missingExponent
  | missingHexDigits
  | missingToken
  | lookaheadOverflow
  | emptyPushback
  deriving DecidableEq, Repr, Inhabited

/-- A source that shows a condition. -/
structure Example where
  description : Text
  source : Text
  deriving DecidableEq, Repr, Inhabited

/-- An entry of the catalogue. -/
structure Definition where
  category : Category
  problem : Problem
  description : Text
  /-- The message, with placeholders for the members of a diagnostic's context. -/
  template : Text
  cause : Option Text
  examples : Option (List Example)
  deriving DecidableEq, Repr, Inhabited

/-- The name of a category. -/
def Category.name : Category → Text
  | lexer => "lexer"
  | parse => "parse"
  | internal => "internal"

/-- The name of a kind of problem. -/
def Problem.name : Problem → Text
  | illegalToken => "IllegalToken"
  | unterminatedComment => "UnterminatedComment"
  | unterminatedString => "UnterminatedString"
  | unterminatedRegExp => "UnterminatedRegexLiteral"
  | unterminatedClass => "UnterminatedCharacterClass"
  | missingExponentDigits => "MissingExponentDigits"
  | missingExpectedToken => "MissingExpectedToken"
  | lookaheadOverflow => "LookaheadOverflow"
  | emptyPushback => "EmptyPushback"

namespace Code

/-- Every condition, in the order of the catalogue. -/
def all : List Code :=
  [illegalCharacter, unterminatedComment, unterminatedString, unterminatedRegExp, unterminatedClass,
   missingExponent, missingHexDigits, missingToken, lookaheadOverflow, emptyPushback]

/-- The identifier of a condition. -/
def id : Code → Text
  | illegalCharacter => "JSCAN-L001"
  | unterminatedComment => "JSCAN-L002"
  | unterminatedString => "JSCAN-L003"
  | unterminatedRegExp => "JSCAN-L004"
  | unterminatedClass => "JSCAN-L005"
  | missingExponent => "JSCAN-L006"
  | missingHexDigits => "JSCAN-L007"
  | missingToken => "JSCAN-P001"
  | lookaheadOverflow => "JSCAN-I001"
  | emptyPushback => "JSCAN-I002"

/-- The condition with an identifier, if there is one. -/
def ofId? (t : Text) : Option Code := all.find? fun c => c.id = t

/-- The entry of a condition. -/
def definition : Code → Definition
  | illegalCharacter =>
    { category := .lexer
      problem := .illegalToken
      description := "Illegal token"
      template := "Illegal token \x7bchar\x7d"
      cause := some "No literal, identifier or operator starts with this character."
      examples := some
        [ ⟨"Hash outside of a string", "a # b"⟩,
          ⟨"Template literal backtick", "`x`"⟩ ] }
  | unterminatedComment =>
    { category := .lexer
      problem := .unterminatedComment
      description := "Unterminated comment"
      template := "Unterminated comment"
      cause := some "A block comment was opened with /* but the input ends before */."
      examples := some [⟨"Missing comment close", "/* note"⟩] }
  | unterminatedString =>
    { category := .lexer
      problem := .unterminatedString
      description := "Unterminated string literal"
      template := "Unterminated string literal"
      cause := some
        "A quote was opened but the line or the input ends before the matching quote."
      examples := some
        [ ⟨"Missing closing quote", "\"abc"⟩,
          ⟨"Raw newline inside a string", "'a\nb'"⟩ ] }
  | unterminatedRegExp =>
    { category := .lexer
      problem := .unterminatedRegExp
      description := "Unterminated regular expression"
      template := "Unterminated regular expression literal"
      cause := some "A regular expression was opened with / but never closed on its line."
      examples := some [⟨"Missing closing slash", "x = /ab"⟩] }
  | unterminatedClass =>
    { category := .lexer
      problem := .unterminatedClass
      description := "Unterminated character class"
      template := "Unterminated character class"
      cause := some "A [ inside a regular expression has no matching ]."
      examples := some [⟨"Open class", "x = /[a-z/"⟩] }
  | missingExponent =>
    { category := .lexer
      problem := .missingExponentDigits
      description := "Missing exponent"
      template := "Missing exponent in \x7btext\x7d"
      cause := some "An exponent marker (e or E, optional sign) has no digits after it."
      examples := some
        [ ⟨"Bare exponent marker", "1e"⟩,
          ⟨"Signed exponent without digits", "2.5E+"⟩ ] }
  | missingHexDigits =>
    { category := .lexer
      problem := .illegalToken
      description := "Missing hexadecimal digits"
      template := "Missing hexadecimal digits after \x7bprefix\x7d"
      cause := some "A 0x or 0X prefix is not followed by any hexadecimal digit."
      examples := some [⟨"Empty hex literal", "0x"⟩] }
  | missingToken =>
    { category := .parse
      problem := .missingExpectedToken
      description := "Missing expected token"
      template := "Missing \x7bexpected\x7d"
      cause := some "The parser required a specific token but the next token differs."
      examples := some [⟨"Unclosed call", "f(a"⟩] }
  | lookaheadOverflow =>
    { category := .internal
      problem := .lookaheadOverflow
      description := "Too much lookahead"
      template := "PANIC: too much lookahead (\x7blimit\x7d tokens max)"
      cause := some
        "The caller pushed back more tokens than the lookahead buffer holds."
      examples := none }
  | emptyPushback =>
    { category := .internal
      problem := .emptyPushback
      description := "Nothing to push back"
      template := "PANIC: no current token to push back"
      cause := some "unget() was called before any token was consumed."
      examples := none }

theorem mem_all (c : Code) : c ∈ all := by cases c <;> decide

@[simp] theorem ofId?_id (c : Code) : ofId? c.id = some c := by cases c <;> rfl

/-- A text identifies a condition exactly if it is the condition's identifier. -/
theorem ofId?_eq_some_iff {t : Text} {c : Code} : ofId? t = some c ↔ t = c.id := by
  constructor
  · intro h
    have hs := List.find?_some (by simpa only [ofId?] using h)
    exact (of_decide_eq_true hs).symm
  · rintro rfl
    exact ofId?_id c

end Code

end ScriptScanner
