import ScriptScanner.Location
set_option autoImplicit false

/-!
# Faults

What can be wrong, as causes.  The first seven are faults of a source: no rule accepts the text
at some place.  The others are faults of the host: a token it demands is not there, or it puts
back more than it may.  A fault carries the text that its message quotes and nothing else; where
it happened is kept beside it, and how it is worded is decided when it is reported.
-/

namespace ScriptScanner

/-- A cause of failure. -/
inductive Fault where
  /-- No token begins with this character; it is carried in quotes. -/
  | illegalCharacter (quoted : Text)
  | unterminatedComment
  | unterminatedString
  | unterminatedRegExp
  | unterminatedClass
  /-- An exponent has no digits; the text is the number as far as it goes. -/
  | missingExponent (numeral : Text)
  /-- A hexadecimal prefix has no digits after it. -/
  | missingHexDigits (marker : Text)
  /-- The next token is not of the kind that the host demands by this name. -/
  | missingToken (expected : Text)
  /-- More tokens are put back than may wait at once. -/
  | lookaheadOverflow (limit : Nat)
  /-- A token is put back where none was taken. -/
  | emptyPushback
  deriving DecidableEq, Repr, Inhabited

/-- A fault and the place where it is reported. -/
structure LocatedFault where
  fault : Fault
  location : Location
  deriving DecidableEq, Repr, Inhabited

end ScriptScanner
