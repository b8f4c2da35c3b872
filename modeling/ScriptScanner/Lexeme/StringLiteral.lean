import ScriptScanner.Lexeme.Numeral
set_option autoImplicit false

/-!
# String literals

A string literal runs from a quote to the next such quote on its line that no backslash escapes.
A backslash and what follows it make an escape, which denotes a unit or nothing: a letter for a
control character, two or four hexadecimal digits, one to three octal digits, a line break that
is left out, or any other unit standing for itself.  A malformed hexadecimal escape denotes its
letter, and the digits that it does have stand for themselves.
-/

namespace ScriptScanner

namespace Escape

/-- The control character that `n`, `r`, `t`, `b`, `f` or `v` denotes after a backslash. -/
def control? (u : CodeUnit) : Option CodeUnit :=
  if u = 0x6E then some CodeUnit.lineFeed
  else if u = 0x72 then some CodeUnit.carriageReturn
  else if u = 0x74 then some CodeUnit.tab
  else if u = 0x62 then some CodeUnit.backspace
  else if u = 0x66 then some CodeUnit.formFeed
  else if u = 0x76 then some CodeUnit.verticalTab
  else none

/-- The number of digits that a hexadecimal escape has after its letter, `x` or `u`. -/
def hexDigits? (u : CodeUnit) : Option Nat :=
  if u = 0x78 then some 2 else if u = 0x75 then some 4 else none

/-- The digits of an octal escape: up to three, but no third after a first above `3`. -/
def octalDigits (first : CodeUnit) (rest : Text) : Text :=
  first :: (rest.take (if first ≤ 0x33 then 2 else 1)).takeWhile CharClass.octalDigit.has

/-- What the text after a backslash denotes, and how much of it the escape takes.  At the end of the
input the escape is empty. -/
def read : Text → Text × Nat
  | [] => ([], 0)
  | u :: rest =>
      match control? u, hexDigits? u with
      | some c, _ => ([c], 1)
      | none, some n =>
          let digits := rest.take n
          if digits.length = n && digits.all CharClass.hexDigit.has then
            ([UInt16.ofNat (positional 16 digits)], n + 1)
          else ([u], 1)
      | none, none =>
          if u = CodeUnit.lineFeed then ([], 1)
          else if u = CodeUnit.carriageReturn then
            ([], if rest.head? = some CodeUnit.lineFeed then 2 else 1)
          else if CharClass.octalDigit.has u then
            let digits := octalDigits u rest
            ([UInt16.ofNat (positional 8 digits)], digits.length)
          else ([u], 1)

end Escape

namespace StringLiteral

/-- The variant of a string in a kind of quotes. -/
def variant (quote : CodeUnit) : Text :=
  if quote = CodeUnit.singleQuote then "single" else "double"

/-- The lexeme that a string makes. -/
def lexeme (quote : CodeUnit) (value : Text) : Lexeme :=
  { kind := .string, content := .text value, variant := variant quote }

/-- Reads a string up to its closing quote.  `decoded` is the value so far, latest unit first, and
`passed` the number of units before this point, the opening quote among them. -/
def readBody (quote : CodeUnit) (decoded : Text) (passed : Nat) (t : Text) : Reading Lexeme :=
  match t with
  | [] => .broken .unterminatedString 0 passed
  | u :: rest =>
      if u = CodeUnit.lineFeed then .broken .unterminatedString 0 passed
      else if u = quote then .found (lexeme quote decoded.reverse) (passed + 1)
      else if u = CodeUnit.backslash then
        if rest.isEmpty then .broken .unterminatedString 0 (passed + 1)
        else
          let (meaning, n) := Escape.read rest
          readBody quote (meaning.reverse ++ decoded) (passed + 1 + n) (rest.drop n)
      else readBody quote (u :: decoded) (passed + 1) rest
  termination_by t.length
  decreasing_by
    · simp only [List.length_drop, List.length_cons]; omega
    · simp only [List.length_cons]; omega

/-- A string that is found ends after the point where it was looked for. -/
theorem lt_of_readBody_eq_found {quote : CodeUnit} {decoded t : Text} {passed n : Nat} {x : Lexeme}
    (h : readBody quote decoded passed t = .found x n) : passed < n := by
  fun_induction readBody quote decoded passed t with
  | case1 => cases h
  | case2 => cases h
  | case3 => cases h; omega
  | case4 => cases h
  | case5 => rename_i ih; have := ih h; omega
  | case6 => rename_i ih; have := ih h; omega

/-- Reads a string.  Whatever stands first is taken for the quote. -/
def read : Text → Reading Lexeme
  | [] => .broken .unterminatedString 0 0
  | quote :: rest => readBody quote [] 1 rest

/-- A string has a length. -/
theorem pos_of_read_eq_found {t : Text} {x : Lexeme} {n : Nat} (h : read t = .found x n) :
    0 < n := by
  cases t with
  | nil => cases h
  | cons quote rest => exact Nat.lt_of_succ_lt (lt_of_readBody_eq_found h)

end StringLiteral

end ScriptScanner
