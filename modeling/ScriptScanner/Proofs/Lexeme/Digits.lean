import Mathlib.Data.List.Induction
import ScriptScanner.Lexeme.Numeral
set_option autoImplicit false

/-!
# Digits and the numbers that they spell

A digit is in a table with its value, and a letter is there in both cases.  A text of digits spells
a number in a base: the empty text spells zero, and a digit more multiplies by the base and adds its
value.  The scanner's own computation of a number from its digits agrees with this.

The digits of a base are the units of a class.  No digit is a quote, a backslash or a line break,
which is why a reader that takes digits never runs over the end of a literal.
-/

namespace ScriptScanner

/-! ## Classes of digits -/

namespace CharClass

variable {u : CodeUnit}

theorem hexDigit_of_octalDigit (h : octalDigit.has u = true) : hexDigit.has u = true := by
  simp only [has, octalDigit, List.any_cons, List.any_nil, Bool.or_false, Bool.and_eq_true,
    decide_eq_true_eq] at h
  simp only [hexDigit, digit, has_union, Bool.or_eq_true]
  refine .inl ?_
  simp only [has, List.any_cons, List.any_nil, Bool.or_false, Bool.and_eq_true, decide_eq_true_eq]
  exact ⟨h.1, UInt16.le_trans h.2 (by decide)⟩

/-- A digit ends no string and no line, and it begins no escape. -/
theorem not_mem_of_hexDigit (h : hexDigit.has u = true) :
    u ∉ [CodeUnit.singleQuote, CodeUnit.doubleQuote, CodeUnit.backslash, CodeUnit.lineFeed,
      CodeUnit.carriageReturn] := by
  intro hu
  simp only [List.mem_cons, List.not_mem_nil, or_false] at hu
  rcases hu with rfl | rfl | rfl | rfl | rfl <;> exact absurd h (by decide)

end CharClass

/-! ## Spelling -/

/-- The digits of bases up to sixteen, each with its value. -/
def digitTable : List (CodeUnit × Nat) :=
  (Text.ofString "0123456789abcdef").zipIdx ++ (Text.ofString "ABCDEF").zipIdx 10

/-- The digits spell the number in the base. -/
inductive Spells (base : Nat) : (digits : Text) → (n : Nat) → Prop where
  | nil : Spells base [] 0
  | concat {digits : Text} {n value : Nat} {digit : CodeUnit} (hdigits : Spells base digits n)
      (hdigit : (digit, value) ∈ digitTable) (hvalue : value < base) :
      Spells base (digits ++ [digit]) (base * n + value)

namespace Spells

variable {base n : Nat} {digits : Text}

theorem positional_eq (h : Spells base digits n) : positional base digits = n := by
  induction h with
  | nil => rfl
  | concat _ hdigit _ ih =>
    have htable : ∀ row ∈ digitTable, digitValue row.1 = row.2 := by decide +kernel
    rw [positional_concat, ih, htable _ hdigit]

/-- Every text of digits of the base spells its positional number. -/
theorem of_all
    (h : (digits.all fun u => digitTable.any fun row => row.1 = u ∧ row.2 < base) = true) :
    Spells base digits (positional base digits) := by
  induction digits using List.reverseRecOn with
  | nil => exact .nil
  | append_singleton digits u ih =>
    rw [List.all_append, Bool.and_eq_true, List.all_cons, List.all_nil, Bool.and_true,
      List.any_eq_true] at h
    obtain ⟨hdigits, ⟨v, value⟩, hdigit, hrow⟩ := h
    obtain ⟨rfl, hvalue⟩ := of_decide_eq_true hrow
    have hspells := (ih hdigits).concat hdigit hvalue
    rwa [← hspells.positional_eq] at hspells

/-- If every digit that the base admits is in the class, then so is every digit of a number. -/
theorem forall_has {k : CharClass}
    (hk : ∀ row ∈ digitTable, row.2 < base → k.has row.1 = true) (h : Spells base digits n) :
    ∀ u ∈ digits, k.has u = true := by
  induction h with
  | nil => exact nofun
  | concat _ hdigit hvalue ih =>
    intro u hu
    rcases List.mem_append.mp hu with hu | hu
    · exact ih u hu
    · rw [List.mem_singleton.mp hu]
      exact hk _ hdigit hvalue

theorem forall_hexDigit (h : Spells 16 digits n) : ∀ u ∈ digits, CharClass.hexDigit.has u = true :=
  h.forall_has (by decide +kernel)

theorem forall_octalDigit (h : Spells 8 digits n) :
    ∀ u ∈ digits, CharClass.octalDigit.has u = true :=
  h.forall_has (by decide +kernel)

theorem forall_digit (hbase : base ≤ 10) (h : Spells base digits n) :
    ∀ u ∈ digits, CharClass.digit.has u = true := by
  have htable : ∀ row ∈ digitTable, row.2 < 10 → CharClass.digit.has row.1 = true := by
    decide +kernel
  exact h.forall_has fun row hrow hvalue => htable row hrow (Nat.lt_of_lt_of_le hvalue hbase)

end Spells

/-- A zero in front of digits changes nothing. -/
theorem positional_zero_cons (base : Nat) (digits : Text) :
    positional base (CodeUnit.zero :: digits) = positional base digits := rfl

end ScriptScanner
