import ScriptScanner.Text
set_option autoImplicit false

/-!
# Quoted text

Diagnostics show a piece of source text between double quotes.  The quote and the backslash are
escaped; control characters take their short escape if they have one and `\u` with four digits
otherwise, and so does a surrogate that stands alone.  Everything else stands for itself, so the
quoted form is always well formed.
-/

namespace ScriptScanner.Text

/-- The lower-case hexadecimal digit of a value below sixteen. -/
def hexDigit (n : Nat) : CodeUnit :=
  if n < 10 then UInt16.ofNat (0x30 + n) else UInt16.ofNat (0x57 + n)

/-- `\u` and four hexadecimal digits. -/
def unicodeEscape (u : CodeUnit) : Text :=
  let n := u.toNat
  [CodeUnit.backslash, 0x75, hexDigit (n / 0x1000), hexDigit (n / 0x100 % 0x10),
    hexDigit (n / 0x10 % 0x10), hexDigit (n % 0x10)]

/-- The written form of a unit that is not part of a surrogate pair. -/
def quotedUnit (u : CodeUnit) : Text :=
  if u = CodeUnit.doubleQuote || u = CodeUnit.backslash then [CodeUnit.backslash, u]
  else if u = CodeUnit.backspace then [CodeUnit.backslash, 0x62]
  else if u = CodeUnit.tab then [CodeUnit.backslash, 0x74]
  else if u = CodeUnit.lineFeed then [CodeUnit.backslash, 0x6E]
  else if u = CodeUnit.formFeed then [CodeUnit.backslash, 0x66]
  else if u = CodeUnit.carriageReturn then [CodeUnit.backslash, 0x72]
  else if u < CodeUnit.space || u.isSurrogate then unicodeEscape u
  else [u]

/-- The written form of every unit, without the quotes around it. -/
def quotedBody : Text → Text
  | [] => []
  | [u] => quotedUnit u
  | u :: v :: rest =>
      if u.isHighSurrogate && v.isLowSurrogate then u :: v :: quotedBody rest
      else quotedUnit u ++ quotedBody (v :: rest)

/-- A text between double quotes. -/
def quoted (t : Text) : Text :=
  CodeUnit.doubleQuote :: (t.quotedBody ++ [CodeUnit.doubleQuote])

end ScriptScanner.Text
