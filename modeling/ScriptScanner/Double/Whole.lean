import ScriptScanner.Double.Rounding
import ScriptScanner.Double.Shortest
set_option autoImplicit false

/-!
# Whole numbers among the doubles

Lines, columns and offsets are doubles wherever a host hands them over, so they are whole numbers
that a double can hold: all of them up to `2 ^ 53`, above that every second one, then every fourth,
and so on.  Any other whole number is rounded to the nearest of these, and of two equally near to
the one with the even significand.

Counting rounds after every step.  Up to `exactLimit` it is exact; from there a step of one is no
more than half of the distance to the next double, and the count stands still.
-/

namespace ScriptScanner.Double

/-- Every whole number up to this one is a double. -/
def exactLimit : Nat := Nat.pow 2 53

/-- The nearest natural number among the doubles. -/
def roundNat (n : Nat) : Nat :=
  if n ≤ exactLimit then n
  else
    let spacing := Nat.pow 2 (dropped n)
    roundQuotient n spacing * spacing

/-- The nearest whole number among the doubles. -/
def roundInt (n : Int) : Int :=
  if n < 0 then -(roundNat n.natAbs : Int) else (roundNat n.natAbs : Int)

/-- One more, as far as doubles tell whole numbers apart. -/
def next (n : Int) : Int := roundInt (n + 1)

/-- The double nearest to a whole number. -/
def ofInt (n : Int) : Double := ofRatio (n < 0) n.natAbs 1

/-- The whole number that a double is, if it is one. -/
def toInt? : Double → Option Int
  | .finite negative q =>
      if q % quantaPerOne = 0 then
        let n : Int := (q / quantaPerOne : Nat)
        some (if negative then -n else n)
      else none
  | _ => none

/-- The text of a whole number among the doubles: its digits where doubles are exact, and beyond
that the shortest decimal that reads back. -/
def wholeText (n : Int) : Text :=
  if n.natAbs ≤ exactLimit then Text.ofInt n else (ofInt n).text

/-! ## Basic laws -/

theorem roundInt_of_natAbs_le {n : Int} (h : n.natAbs ≤ exactLimit) : roundInt n = n := by
  simp only [roundInt, roundNat, h, if_true]
  split <;> omega

/-- Where doubles are exact, counting is. -/
theorem next_eq_add_one {n : Int} (h : n.natAbs < exactLimit) : next n = n + 1 :=
  roundInt_of_natAbs_le (by omega)

/-- At the limit the count stands still. -/
theorem next_exactLimit : next exactLimit = exactLimit := by decide +kernel

/-! ## Exactness

The quanta of a natural number are the number with zeros appended in binary.  The spacing of doubles
grows with the length of the number, so up to the limit there are zeros enough for it to divide. -/

theorem log2_mul_two_pow {n : Nat} (hn : n ≠ 0) (k : Nat) :
    (n * Nat.pow 2 k).log2 = n.log2 + k := by
  change (n * 2 ^ k).log2 = n.log2 + k
  have hpow : 0 < 2 ^ k := Nat.two_pow_pos k
  obtain ⟨hle, hlt⟩ := (Nat.log2_eq_iff hn).mp rfl
  apply (Nat.log2_eq_iff (Nat.mul_ne_zero hn (Nat.ne_of_gt hpow))).mpr
  rw [Nat.add_right_comm, Nat.pow_add, Nat.pow_add]
  exact ⟨Nat.mul_le_mul_right _ hle, Nat.mul_lt_mul_of_pos_right hlt hpow⟩

theorem two_pow_dropped_dvd {n : Nat} (h : n ≤ exactLimit) (k : Nat) :
    Nat.pow 2 (dropped (n * Nat.pow 2 k)) ∣ n * Nat.pow 2 k := by
  by_cases hn : n = 0
  · rw [hn, Nat.zero_mul]
    exact Nat.dvd_zero _
  · rw [dropped, log2_mul_two_pow hn, fractionBits]
    rcases Nat.lt_or_eq_of_le h with hlt | rfl
    · have hlog : n.log2 < 53 := (Nat.log2_lt hn).mpr hlt
      exact Nat.dvd_mul_left_of_dvd (Nat.pow_dvd_pow 2 (by omega)) n
    · -- the limit has one bit more, but it is a power of two itself
      have hlog : exactLimit.log2 = 53 := by decide +kernel
      have hlimit : exactLimit = 2 ^ 53 := by decide +kernel
      rw [hlog, hlimit]
      change 2 ^ (53 + k - 52) ∣ 2 ^ 53 * 2 ^ k
      rw [← Nat.pow_add]
      exact Nat.pow_dvd_pow 2 (by omega)

/-- Up to the limit every natural number is a double. -/
theorem ofNat_eq_finite {n : Nat} (h : n ≤ exactLimit) :
    ofNat n = .finite false (n * quantaPerOne) := by
  have hlimit : exactLimit * quantaPerOne < limit := by decide +kernel
  have hrange : n * quantaPerOne < limit := Nat.lt_of_le_of_lt (Nat.mul_le_mul_right _ h) hlimit
  obtain ⟨k, hk⟩ : ∃ k, quantaPerOne = Nat.pow 2 k := ⟨1074, by decide +kernel⟩
  have hrounded : roundQuotient (n * quantaPerOne) (Nat.pow 2 (dropped (n * quantaPerOne))) *
      Nat.pow 2 (dropped (n * quantaPerOne)) = n * quantaPerOne := by
    rw [hk]
    exact roundQuotient_mul_of_dvd (Nat.two_pow_pos _) (two_pow_dropped_dvd h k)
  simp only [ofNat, ofRatio, Nat.div_one, Nat.one_mul]
  rw [hrounded, if_pos hrange]

theorem toNat?_ofNat {n : Nat} (h : n ≤ exactLimit) : (ofNat n).toNat? = some n := by
  have hpos : 0 < quantaPerOne := by decide +kernel
  rw [ofNat_eq_finite h, toNat?, if_pos (Nat.mul_mod_left n quantaPerOne),
    Nat.mul_div_cancel n hpos]

end ScriptScanner.Double
