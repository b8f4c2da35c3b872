set_option autoImplicit false

/-!
# Doubles

A double is kept as the number that it is.  Every finite double is a whole multiple of the smallest
positive one, so its magnitude is a natural number of *quanta* of size `2 ^ -1074`: the double `1`
is `2 ^ 1074` quanta, and arithmetic on magnitudes is exact arithmetic on natural numbers.  The
64-bit pattern is a view of that number, read and written here.

Not every natural number of quanta is a double: those that are have at most 53 bits before their
trailing zeros and stay below `limit`.  `Double.Rounding` makes only such numbers.
-/

namespace ScriptScanner

/-- An IEEE double; a finite one is a sign and a number of quanta. -/
inductive Double where
  | nan
  | infinity (negative : Bool)
  | finite (negative : Bool) (quanta : Nat)
  deriving DecidableEq, Repr, Inhabited

namespace Double

/-- The number of quanta in one. -/
def quantaPerOne : Nat := Nat.pow 2 1074

/-- A magnitude of this many quanta or more is out of range. -/
def limit : Nat := Nat.pow 2 2098

/-- Bits of a significand that the pattern stores. -/
def fractionBits : Nat := 52

/-- The number of low bits that a magnitude of this size has no room for: its doubles are
`2 ^ dropped q` quanta apart. -/
def dropped (quanta : Nat) : Nat := quanta.log2 - fractionBits

/-- The natural number that a double is, if it is one. -/
def toNat? : Double → Option Nat
  | .finite false q => if q % quantaPerOne = 0 then some (q / quantaPerOne) else none
  | _ => none

/-! ## The bit pattern -/

/-- The pattern without its sign bit.  The exponent field counts the dropped bits from one, and the
leading bit of the significand, which is not stored, adds the one. -/
def magnitudeBits : Double → Nat
  | .nan => 0x7FF8000000000000
  | .infinity _ => 0x7FF0000000000000
  | .finite _ q => dropped q * Nat.pow 2 fractionBits + q >>> dropped q

/-- Whether the sign bit is set. -/
def isNegative : Double → Bool
  | .nan => false
  | .infinity s => s
  | .finite s _ => s

/-- The 64-bit pattern, as a number; there is one pattern for "not a number". -/
def toBits (d : Double) : Nat :=
  (if d.isNegative then Nat.pow 2 63 else 0) + d.magnitudeBits

/-- The double with a given pattern. -/
def ofBits (bits : Nat) : Double :=
  let negative := bits / Nat.pow 2 63 % 2 = 1
  let exponent := bits / Nat.pow 2 fractionBits % Nat.pow 2 11
  let fraction := bits % Nat.pow 2 fractionBits
  if exponent = 0x7FF then
    if fraction = 0 then .infinity negative else .nan
  else if exponent = 0 then .finite negative fraction
  else .finite negative ((Nat.pow 2 fractionBits + fraction) <<< (exponent - 1))

end Double

end ScriptScanner
