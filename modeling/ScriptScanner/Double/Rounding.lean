import ScriptScanner.Double
set_option autoImplicit false

/-!
# Rounding to a double

A numeral denotes an exact rational number; the double it is read as is the nearest one, and of two
equally near the one with the even significand.  All of it is division of natural numbers: the
quotient counts the spacing of doubles at that size, and twice the remainder is compared with the
divisor.
-/

namespace ScriptScanner

/-- The whole number nearest to a quotient, the even one of two. -/
def roundQuotient (numerator denominator : Nat) : Nat :=
  let q := numerator / denominator
  let r := numerator % denominator
  if 2 * r < denominator then q
  else if denominator < 2 * r then q + 1
  else q + q % 2

/-- A divisor rounds to the exact quotient. -/
theorem roundQuotient_mul_self (n : Nat) {d : Nat} (hd : 0 < d) :
    roundQuotient (n * d) d = n := by
  simp [roundQuotient, Nat.mul_div_cancel n hd, hd]

/-- A multiple of the divisor is itself when it is rounded to one. -/
theorem roundQuotient_mul_of_dvd {n d : Nat} (hd : 0 < d) (h : d ∣ n) :
    roundQuotient n d * d = n := by
  obtain ⟨m, rfl⟩ := h
  rw [Nat.mul_comm d m, roundQuotient_mul_self m hd]

/-- Rounding is off by at most half of the divisor. -/
theorem roundQuotient_error (n : Nat) {d : Nat} (hd : 0 < d) :
    2 * n ≤ 2 * (d * roundQuotient n d) + d ∧ 2 * (d * roundQuotient n d) ≤ 2 * n + d := by
  have h := Nat.div_add_mod n d
  have hr := Nat.mod_lt n hd
  simp only [roundQuotient]
  split
  · omega
  · split
    · rw [Nat.mul_add]; omega
    · rcases Nat.mod_two_eq_zero_or_one (n / d) with h2 | h2 <;> rw [h2, Nat.mul_add] <;> omega

namespace Double

/-- The magnitude nearest to a ratio, or an infinity out of range. -/
def ofRatio (negative : Bool) (numerator denominator : Nat) : Double :=
  let quanta := numerator * quantaPerOne
  let spacing := Nat.pow 2 (dropped (quanta / denominator))
  let rounded := roundQuotient quanta (denominator * spacing) * spacing
  if rounded < limit then .finite negative rounded else .infinity negative

/-- The double nearest to a natural number. -/
def ofNat (n : Nat) : Double := ofRatio false n 1

/-- The number of decimal digits of a natural number; zero has none. -/
def decimalLength (n : Nat) : Nat :=
  if n = 0 then 0 else (Nat.toDigits 10 n).length

/-- The double nearest to `significand * 10 ^ exponent`.  A positive number of `n` digits lies from
`10 ^ (n - 1 + exponent)` up to `10 ^ (n + exponent)`, so one that is far above the largest double
or far below the smallest is settled without forming the power. -/
def ofScientific (negative : Bool) (significand : Nat) (exponent : Int) : Double :=
  if significand = 0 then .finite negative 0
  else
    let magnitude := decimalLength significand + exponent
    if 310 < magnitude then .infinity negative
    else if magnitude < -330 then .finite negative 0
    else if 0 ≤ exponent then ofRatio negative (significand * Nat.pow 10 exponent.toNat) 1
    else ofRatio negative significand (Nat.pow 10 exponent.natAbs)

end Double

end ScriptScanner
