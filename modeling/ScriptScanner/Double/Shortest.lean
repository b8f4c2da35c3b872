import ScriptScanner.Double
import ScriptScanner.Text
set_option autoImplicit false

/-!
# The shortest decimal of a double

A double is written with the fewest decimal digits that read back as the same double; of the
decimals with that many digits the nearest to the double is taken, and of two equally near the
even one.

A quantum is `5 ^ 1074 / 10 ^ 1074`, so the exact value of a double is a whole number in units of
`10 ^ -1074`.  On that scale the decimals with a given number of digits are the multiples of a
power of ten, and the candidates are the two multiples around the value.  A candidate reads back
if it lies within half the spacing of doubles on its side; the ends belong to the interval if the
significand is even.

How the digits are laid out is a separate decision, made once in `numberLayout`.
-/

namespace ScriptScanner

/-- The positive decimal number `digits * 10 ^ exponent`. -/
structure Decimal where
  digits : Nat
  exponent : Int
  deriving DecidableEq, Repr, Inhabited

namespace Decimal

/-- The same number with no zero at the end of its digits. -/
def normalize (d : Decimal) : Decimal :=
  if h : d.digits ≠ 0 ∧ d.digits % 10 = 0 then
    normalize ⟨d.digits / 10, d.exponent + 1⟩
  else d
  termination_by d.digits
  decreasing_by
    exact Nat.div_lt_self (Nat.pos_of_ne_zero h.1) (by decide)

end Decimal

namespace Double

/-- The decimal exponent of the exact scale. -/
def exactExponent : Int := -1074

/-- The number of exact units in one quantum. -/
def exactPerQuantum : Nat := Nat.pow 5 1074

/-- A range of numbers on the exact scale, in quarters of its unit, so that half and quarter
spacings are whole. -/
structure Interval where
  low : Nat
  high : Nat
  closed : Bool
  deriving DecidableEq, Repr, Inhabited

/-- Membership; the ends count if the interval is closed. -/
def Interval.contains (i : Interval) (x : Nat) : Bool :=
  if i.closed then i.low ≤ x && x ≤ i.high else i.low < x && x < i.high

/-- The numbers that read back as a double of this many quanta: half the spacing on either side,
where below a power of two the doubles are twice as dense. -/
def readingInterval (quanta : Nat) : Interval :=
  let spacing := Nat.pow 2 (dropped quanta)
  let below := if quanta = Nat.pow 2 quanta.log2 && 0 < dropped quanta then spacing else 2 * spacing
  { low := (4 * quanta - below) * exactPerQuantum
    high := (4 * quanta + 2 * spacing) * exactPerQuantum
    closed := quanta / spacing % 2 = 0 }

/-- The better of the multiples of `step` around a value: the one that reads back, of two the
nearer, of two equally near the even one. -/
def candidate? (interval : Interval) (value step : Nat) : Option Nat :=
  let below := value / step
  let above := below + 1
  let fits (n : Nat) : Bool := interval.contains (4 * (n * step))
  let remainder := value % step
  if fits below && fits above then
    if 2 * remainder < step then some below
    else if step < 2 * remainder then some above
    else if below % 2 = 0 then some below else some above
  else if fits below then some below
  else if fits above then some above
  else none

/-- The first grid, from the coarsest on, with a decimal that reads back.  The finest grid is the
exact scale itself, where the value is its own candidate. -/
def firstCandidate (interval : Interval) (value : Nat) : Nat → Decimal
  | 0 => ⟨value, exactExponent⟩
  | places + 1 =>
      match candidate? interval value (Nat.pow 10 (places + 1)) with
      | some n => ⟨n, exactExponent + (places + 1 : Nat)⟩
      | none => firstCandidate interval value places

/-- The shortest decimal of a positive double. -/
def shortest (quanta : Nat) : Decimal :=
  let value := quanta * exactPerQuantum
  (firstCandidate (readingInterval quanta) value (Nat.toDigits 10 value).length).normalize

end Double

/-! ## Layout -/

/-- How a number is laid out as text. -/
structure NumberLayout where
  /-- The point stands after at most this many digits. -/
  maxWhole : Int
  /-- And before at most this many zeros that follow it. -/
  maxLeadingZeros : Int
  notANumber : Text
  infinite : Text
  deriving DecidableEq, Repr, Inhabited

/-- Positional from `10 ^ -6` up to `10 ^ 21`; beyond that a signed exponent of as many digits as it
needs. -/
def numberLayout : NumberLayout :=
  { maxWhole := 21, maxLeadingZeros := 5, notANumber := "NaN", infinite := "Infinity" }

namespace NumberLayout

/-- A run of zeros. -/
def zeros (n : Int) : Text := List.replicate n.toNat CodeUnit.zero

/-- The exponent part: the marker, a sign in every case, the digits. -/
def exponentPart (n : Int) : Text :=
  0x65 :: (if n < 0 then CodeUnit.minus else CodeUnit.plus) :: Text.ofNat n.natAbs

/-- The text of a positive decimal without trailing zeros.  `point` is the number of digits before
the decimal point, at or below zero if the number is smaller than a tenth. -/
def decimal (layout : NumberLayout) (d : Decimal) : Text :=
  let digits := Text.ofNat d.digits
  let count : Int := digits.length
  let point := count + d.exponent
  if count ≤ point && point ≤ layout.maxWhole then digits ++ zeros (point - count)
  else if 0 < point && point ≤ layout.maxWhole then
    digits.take point.toNat ++ CodeUnit.dot :: digits.drop point.toNat
  else if -layout.maxLeadingZeros ≤ point && point ≤ 0 then
    CodeUnit.zero :: CodeUnit.dot :: (zeros (-point) ++ digits)
  else
    let fraction := digits.drop 1
    digits.take 1 ++ (if fraction = [] then [] else CodeUnit.dot :: fraction) ++
      exponentPart (point - 1)

end NumberLayout

/-- The text of a double; a zero has no sign. -/
def Double.text : Double → Text
  | .nan => numberLayout.notANumber
  | .infinity negative =>
      if negative then CodeUnit.minus :: numberLayout.infinite else numberLayout.infinite
  | .finite negative quanta =>
      if quanta = 0 then [CodeUnit.zero]
      else
        let magnitude := numberLayout.decimal (shortest quanta)
        if negative then CodeUnit.minus :: magnitude else magnitude

end ScriptScanner
