import ScriptScanner.Double.Rounding
import ScriptScanner.Reading
import ScriptScanner.Text.CharClass
set_option autoImplicit false

/-!
# Numerals

A numeral is hexadecimal, `0x` and digits, or decimal: digits, then perhaps a point and digits,
then perhaps an exponent.  A decimal numeral with a point or an exponent is a float, every other
numeral an integer.  Reading takes the numeral apart, and its value is computed from the parts.

An integer with a leading zero and none but octal digits is read in base eight; one with an `8` or
a `9` among its digits stays decimal.  A numeral may lack digits on either side of the point, so a
reader that is called where no number stands finds one without any digits: as an integer that is
zero, and as a float it is not a number.
-/

namespace ScriptScanner

/-- The exponent of a decimal numeral. -/
structure Exponent where
  /-- `e` or `E`. -/
  marker : CodeUnit
  sign : Option CodeUnit
  digits : Text
  deriving DecidableEq, Repr, Inhabited

/-- A number as it is written. -/
inductive Numeral where
  | hexadecimal (marker : CodeUnit) (digits : Text)
  | decimal (whole : Text) (fraction : Option Text) (exponent : Option Exponent)
  deriving DecidableEq, Repr, Inhabited

/-! ## Digits -/

/-- The value of a digit in any base up to sixteen. -/
def digitValue (u : CodeUnit) : Nat :=
  if u < 0x3A then u.toNat - 0x30 else if u < 0x47 then u.toNat - 0x37 else u.toNat - 0x57

/-- The value of a sequence of digits. -/
def positional (base : Nat) (digits : Text) : Nat :=
  digits.foldl (fun n u => base * n + digitValue u) 0

theorem positional_concat (base : Nat) (digits : Text) (u : CodeUnit) :
    positional base (digits ++ [u]) = base * positional base digits + digitValue u := by
  simp [positional, List.foldl_append]

/-! ## Spelling and value -/

namespace Exponent

/-- The exponent as written. -/
def spelling (e : Exponent) : Text := e.marker :: (e.sign.toList ++ e.digits)

/-- The number that it denotes. -/
def value (e : Exponent) : Int :=
  if e.sign = some CodeUnit.minus then -(positional 10 e.digits : Int)
  else (positional 10 e.digits : Int)

end Exponent

namespace Numeral

/-- The numeral as written. -/
def spelling : Numeral → Text
  | hexadecimal marker digits => CodeUnit.zero :: marker :: digits
  | decimal whole fraction exponent =>
      whole ++ ((fraction.map (CodeUnit.dot :: ·)).getD []) ++
        ((exponent.map Exponent.spelling).getD [])

/-- Whether the numeral is written as a float. -/
def isFloat : Numeral → Bool
  | hexadecimal _ _ => false
  | decimal _ fraction exponent => fraction.isSome || exponent.isSome

/-- The base of an integer without a prefix. -/
def integerBase (digits : Text) : Nat :=
  if 1 < digits.length && digits.head? = some CodeUnit.zero &&
      digits.all CharClass.octalDigit.has then 8
  else 10

/-- The double that a numeral denotes. -/
def value : Numeral → Double
  | hexadecimal _ digits => Double.ofNat (positional 16 digits)
  | decimal whole none none => Double.ofNat (positional (integerBase whole) whole)
  | decimal whole fraction exponent =>
      let digits := whole ++ fraction.getD []
      if digits.isEmpty then .nan
      else
        let scale := ((exponent.map Exponent.value).getD 0) - ((fraction.getD []).length : Int)
        Double.ofScientific false (positional 10 digits) scale

/-- The lexeme that a numeral makes. -/
def lexeme (n : Numeral) : Lexeme :=
  { kind := .number, content := .number n.value, variant := if n.isFloat then "float" else "int" }

/-! ## Reading -/

/-- Whether a number begins here: a digit, or a point before a digit. -/
def startsHere : Text → Bool
  | [] => false
  | u :: rest =>
      CharClass.digit.has u || (u = CodeUnit.dot && rest.head?.any CharClass.digit.has)

/-- `x` or `X`. -/
def isHexMarker (u : CodeUnit) : Bool := u = 0x78 || u = 0x58

/-- `e` or `E`. -/
def isExponentMarker (u : CodeUnit) : Bool := u = 0x65 || u = 0x45

/-- `+` or `-`. -/
def isSign (u : CodeUnit) : Bool := u = CodeUnit.plus || u = CodeUnit.minus

/-- The digits at the front of a text, and the text after them. -/
def splitDigits (t : Text) : Text × Text :=
  (t.takeWhile CharClass.digit.has, t.dropWhile CharClass.digit.has)

/-- The point and the digits at the front of a text, if a point is there, and the text after
them. -/
def splitFraction : Text → Option Text × Text
  | [] => (none, [])
  | u :: rest =>
      if u = CodeUnit.dot then (some (splitDigits rest).1, (splitDigits rest).2)
      else (none, u :: rest)

/-- The sign at the front of a text, if one is there, and the text after it. -/
def splitSign : Text → Option CodeUnit × Text
  | [] => (none, [])
  | u :: rest => if isSign u then (some u, rest) else (none, u :: rest)

/-- Reads the digits of a hexadecimal numeral after its prefix. -/
def readHexadecimal (marker : CodeUnit) (rest : Text) : Reading Numeral :=
  let digits := rest.takeWhile CharClass.hexDigit.has
  if digits.isEmpty then .broken (.missingHexDigits [CodeUnit.zero, marker]) 0 2
  else .found (.hexadecimal marker digits) (digits.length + 2)

/-- Reads the exponent of a decimal numeral of which the other parts are known. -/
def readExponent (whole : Text) (fraction : Option Text) (rest : Text) : Reading Numeral :=
  match rest with
  | [] =>
      let n := decimal whole fraction none
      .found n n.spelling.length
  | marker :: signed =>
      if isExponentMarker marker then
        let (sign, unsigned) := splitSign signed
        let n := decimal whole fraction (some ⟨marker, sign, (splitDigits unsigned).1⟩)
        if (splitDigits unsigned).1.isEmpty then
          .broken (.missingExponent n.spelling) n.spelling.length n.spelling.length
        else .found n n.spelling.length
      else
        let n := decimal whole fraction none
        .found n n.spelling.length

/-- Reads a decimal numeral. -/
def readDecimal (t : Text) : Reading Numeral :=
  let (whole, afterWhole) := splitDigits t
  let (fraction, afterFraction) := splitFraction afterWhole
  readExponent whole fraction afterFraction

/-- Reads the numeral at the front of a text. -/
def readParts : Text → Reading Numeral
  | first :: second :: rest =>
      if first = CodeUnit.zero && isHexMarker second then readHexadecimal second rest
      else readDecimal (first :: second :: rest)
  | t => readDecimal t

/-- Reads a number. -/
def read (t : Text) : Reading Lexeme := (readParts t).map lexeme

/-- What is found begins with the parts that were known. -/
theorem le_of_readExponent_eq_found {whole rest : Text} {fraction : Option Text} {m : Numeral}
    {n : Nat} (h : readExponent whole fraction rest = .found m n) :
    whole.length + ((fraction.map (CodeUnit.dot :: ·)).getD []).length ≤ n := by
  simp only [readExponent] at h
  split at h
  · cases h; simp [spelling]
  · split at h
    · split at h
      · cases h
      · cases h; simp only [spelling, List.length_append]; omega
    · cases h; simp [spelling]

/-- Where a number begins, a numeral has a length. -/
theorem pos_of_read_eq_found {t : Text} {x : Lexeme} {n : Nat} (ht : startsHere t = true)
    (h : read t = .found x n) : 0 < n := by
  have hdecimal : ∀ m, readDecimal t = .found m n → 0 < n := by
    intro m hm
    have hle := le_of_readExponent_eq_found hm
    cases t with
    | nil => cases ht
    | cons u rest =>
      by_cases hu : CharClass.digit.has u = true
      · simp only [splitDigits, List.takeWhile_cons, hu, if_true, List.length_cons] at hle
        omega
      · have hdot : u = CodeUnit.dot := by
          simp only [startsHere, Bool.or_eq_true, Bool.and_eq_true, decide_eq_true_eq] at ht
          exact (ht.resolve_left hu).1
        subst hdot
        simp [splitDigits, hu] at hle
        omega
  simp only [read, Reading.map] at h
  split at h
  · next m k hm =>
    cases h
    unfold readParts at hm
    split at hm
    · split at hm
      · simp only [readHexadecimal] at hm
        split at hm
        · cases hm
        · cases hm; omega
      · exact hdecimal m hm
    · exact hdecimal m hm
  · cases h

end Numeral

end ScriptScanner
