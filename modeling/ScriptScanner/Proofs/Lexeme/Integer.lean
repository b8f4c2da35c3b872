import ScriptScanner.Proofs.Lexeme.Digits
import ScriptScanner.Proofs.Lexeme.LongestNumeral
import ScriptScanner.Proofs.Tokenization.TwoRules
set_option autoImplicit false

/-!
# What integers denote

An integer is written with a prefix in base sixteen, with a leading zero in base eight, and
otherwise in base ten.  A leading zero does not decide the base by itself: one digit that is not
octal makes the number decimal again, wherever it stands, and a single zero is no prefix of
anything.  So the base depends on all digits, and then the value is the one that the digits spell in
it, with any number of zeros in front.

The double of the token is the number itself as long as every natural number is a double.
-/

namespace ScriptScanner

variable {u : CodeUnit}

/-! ## At a digit -/

/-- No name begins with a digit. -/
theorem CharClass.not_nameStart_of_digit (h : digit.has u = true) : nameStart.has u = false := by
  simp only [has, digit, List.any_cons, List.any_nil, Bool.or_false, Bool.and_eq_true,
    decide_eq_true_eq] at h
  have hletters : letter.has u = false := by
    rw [← Bool.not_eq_true]
    intro hletter
    simp only [has, letter, List.any_cons, List.any_nil, Bool.or_false, Bool.or_eq_true,
      Bool.and_eq_true, decide_eq_true_eq] at hletter
    rcases hletter with hlower | hupper
    · exact absurd (UInt16.le_trans hlower.1 h.2) (by decide)
    · exact absurd (UInt16.le_trans hupper.1 h.2) (by decide)
  have hothers : (ofUnits [CodeUnit.underscore, CodeUnit.dollar]).has u = false := by
    rw [← Bool.not_eq_true, has_ofUnits]
    intro hother
    simp only [List.mem_cons, List.not_mem_nil, or_false] at hother
    rcases hother with rfl | rfl
    · exact absurd h.2 (by decide)
    · exact absurd h.1 (by decide)
  rw [nameStart, has_union, hletters, hothers, Bool.or_false]

theorem Trivia.read_of_digit (hu : CharClass.digit.has u = true) (newlines : Bool) (rest : Text) :
    read newlines (u :: rest) = .found [] 0 := by
  have hothers : (CodeUnit.slash :: CodeUnit.lineFeed :: inlineBlanks).all
      (!CharClass.digit.has ·) = true := by decide +kernel
  have hnot : u ∉ CodeUnit.slash :: CodeUnit.lineFeed :: inlineBlanks := by
    intro hmem
    have hplain := List.all_eq_true.mp hothers u hmem
    rw [hu] at hplain
    cases hplain
  exact read_of_stop (List.ne_of_not_mem_cons hnot) (List.not_mem_of_not_mem_cons hnot)
    newlines rest

theorem Lexeme.read_of_digit (hu : CharClass.digit.has u = true) (operand : Bool) (rest : Text) :
    read operand (u :: rest) = Numeral.read (u :: rest) := by
  have hstart : Numeral.startsHere (u :: rest) = true := by
    rw [Numeral.startsHere, hu, Bool.true_or]
  simp only [read, CharClass.not_nameStart_of_digit hu, hstart, if_true, Bool.false_eq_true,
    if_false]

/-! ## The written forms -/

namespace Numeral

open CharClass (digit octalDigit)

/-- The text is a way to write the natural number. -/
inductive WritesInteger : Text → Nat → Prop where
  /-- A prefix and digits, in either case. -/
  | hexadecimal {marker : CodeUnit} {digits : Text} {n : Nat}
      (hmarker : isHexMarker marker = true) (hne : digits ≠ []) (hdigits : Spells 16 digits n) :
      WritesInteger (CodeUnit.zero :: marker :: digits) n
  /-- A zero before digits all of which are octal. -/
  | octal {digits : Text} {n : Nat} (hne : digits ≠ []) (hdigits : Spells 8 digits n) :
      WritesInteger (CodeUnit.zero :: digits) n
  /-- Digits of which the first is no zero, or a single zero. -/
  | decimal {digits : Text} {n : Nat} (hne : digits ≠ [])
      (hzero : digits.head? = some CodeUnit.zero → digits = [CodeUnit.zero])
      (hdigits : Spells 10 digits n) : WritesInteger digits n
  /-- A zero before digits one of which is not octal. -/
  | zerosAndDecimal {digits : Text} {n : Nat} (hdigits : Spells 10 (CodeUnit.zero :: digits) n)
      (hhigh : ∃ u ∈ digits, u = CodeUnit.ofChar '8' ∨ u = CodeUnit.ofChar '9') :
      WritesInteger (CodeUnit.zero :: digits) n

variable {t digits : Text} {n : Nat}

/-- All written forms begin with a digit. -/
theorem WritesInteger.exists_cons (h : WritesInteger t n) :
    ∃ u rest, t = u :: rest ∧ digit.has u = true := by
  cases h with
  | hexadecimal => exact ⟨_, _, rfl, by decide⟩
  | octal => exact ⟨_, _, rfl, by decide⟩
  | decimal hne _ hdigits =>
    obtain ⟨u, rest, rfl⟩ := List.exists_cons_of_ne_nil hne
    exact ⟨u, rest, rfl, hdigits.forall_digit Nat.le.refl u List.mem_cons_self⟩
  | zerosAndDecimal => exact ⟨_, _, rfl, by decide⟩

/-! ## The base -/

theorem integerBase_of_octal (hne : digits ≠ []) (hdigits : ∀ u ∈ digits, octalDigit.has u = true) :
    integerBase (CodeUnit.zero :: digits) = 8 := by
  have hlength : 1 < (CodeUnit.zero :: digits).length :=
    Nat.succ_lt_succ (List.length_pos_iff.mpr hne)
  have hall : (CodeUnit.zero :: digits).all octalDigit.has = true :=
    List.all_eq_true.mpr (List.forall_mem_cons.mpr ⟨by decide, hdigits⟩)
  rw [integerBase, decide_eq_true hlength, hall]
  rfl

theorem integerBase_of_no_leading_zero
    (hzero : digits.head? = some CodeUnit.zero → digits = [CodeUnit.zero]) :
    integerBase digits = 10 := by
  rw [integerBase, if_neg]
  intro h
  simp only [Bool.and_eq_true, decide_eq_true_eq] at h
  rw [hzero h.1.2] at h
  exact Nat.lt_irrefl 1 h.1.1

theorem integerBase_of_high (hu : u ∈ digits) (hhigh : octalDigit.has u = false) :
    integerBase digits = 10 := by
  rw [integerBase, if_neg]
  intro h
  rw [Bool.and_eq_true, List.all_eq_true] at h
  rw [h.2 u hu] at hhigh
  cases hhigh

/-! ## What is read -/

/-- A text of digits is one number, in the base that the digits have together. -/
theorem read_of_digits (hdigits : ∀ u ∈ digits, digit.has u = true) :
    read digits = .found
      (numberLexeme (Double.ofNat (positional (integerBase digits) digits)) "int")
      digits.length := by
  have hhex : ¬ HexAhead digits := by
    rintro ⟨marker, rest, rfl, hmarker⟩
    have hmem : marker ∈ CodeUnit.zero :: marker :: rest :=
      List.mem_cons_of_mem _ List.mem_cons_self
    have hplain := (not_decimal_of_isHexMarker hmarker).1
    rw [hdigits marker hmem] at hplain
    cases hplain
  rw [hexAhead_iff, Bool.not_eq_true] at hhex
  have hsplit : splitDigits (digits ++ []) = (digits, []) := splitDigits_append hdigits nofun
  have hspelling : (decimal digits none none).spelling = digits := by
    simp only [spelling, Option.map_none, Option.getD_none, List.append_nil]
  rw [List.append_nil] at hsplit
  rw [read, readParts_eq_readDecimal hhex, readDecimal, hsplit]
  simp only [splitFraction, readExponent, hspelling, Reading.map]
  rfl

/-- Every written form of a number is read to its end, and as that number. -/
theorem WritesInteger.read_eq (h : WritesInteger t n) :
    read t = .found (numberLexeme (Double.ofNat n) "int") t.length := by
  cases h with
  | @hexadecimal marker digits _ hmarker hne hdigits =>
    have hall : Text.LongestRun CharClass.hexDigit digits digits :=
      Text.longestRun_iff.mpr (List.takeWhile_eq_self_iff.mpr hdigits.forall_hexDigit).symm
    rw [read_of_hexDigits hmarker hall hne, value, hdigits.positional_eq]
  | @octal digits _ hne hdigits =>
    have hall : ∀ u ∈ CodeUnit.zero :: digits, digit.has u = true :=
      List.forall_mem_cons.mpr ⟨rfl, hdigits.forall_digit (by decide)⟩
    rw [read_of_digits hall, integerBase_of_octal hne hdigits.forall_octalDigit,
      positional_zero_cons, hdigits.positional_eq]
  | decimal _ hzero hdigits =>
    rw [read_of_digits (hdigits.forall_digit Nat.le.refl), integerBase_of_no_leading_zero hzero,
      hdigits.positional_eq]
  | zerosAndDecimal hdigits hhigh =>
    obtain ⟨u, hu, hvalue⟩ := hhigh
    have hplain : octalDigit.has u = false := by
      rcases hvalue with rfl | rfl <;> decide +kernel
    have hbase := integerBase_of_high (List.mem_cons_of_mem CodeUnit.zero hu) hplain
    rw [read_of_digits (hdigits.forall_digit Nat.le.refl), hbase, hdigits.positional_eq]

end Numeral

/-! ## Sources that are one integer -/

namespace Cursor

open Numeral (WritesInteger)

variable {source : Source} {n : Nat}

/-- A number that is all that is left is one token. -/
theorem next_of_writesInteger {c : Cursor source} (h : WritesInteger c.rest n) (flags : Flags) :
    c.next flags = (.ok (c.numberToken (Double.ofNat n) "int" c.rest.length),
      c.advanceBy c.rest.length) := by
  obtain ⟨u, rest, hrest, hu⟩ := h.exists_cons
  have htrivia : Trivia.read flags.newlines c.rest = .found [] 0 := by
    rw [hrest, Trivia.read_of_digit hu]
  have hlexeme : Lexeme.read flags.operand (c.rest.drop 0) =
      .found (Numeral.numberLexeme (Double.ofNat n) "int") c.rest.length := by
    rw [List.drop_zero, ← h.read_eq, hrest, Lexeme.read_of_digit hu]
  have hstop : (c.advanceBy c.rest.length).offset = c.offset + c.rest.length := by
    rw [advanceBy_offset, Nat.min_self]
  rw [next_of_found htrivia hlexeme, advanceBy_zero, hstop]
  rfl

/-- The token of the end of the source. -/
def endToken (c : Cursor source) : Token := Lexeme.endOfSource.tokenAt c.location c.offset

end Cursor

variable {source : Source} {s : Settings}

/-- Where the first scan finds a token and the second one the end, whatever is expected, a run
finds these two. -/
theorem tokenize_of_two_scans {c c' : Cursor source} {t ending : Token}
    (ho : s.observer.LetsTokensPass)
    (hfirst : ∀ flags, (Cursor.start source).next flags = (.ok t, c))
    (ht : t.kind ≠ .endOfSource) (hsecond : ∀ flags, c.next flags = (.ok ending, c'))
    (hending : ending.kind = .endOfSource) :
    (tokenize source s).tokens = [t, ending] ∧ (tokenize source s).failure = none := by
  obtain ⟨j, hscan⟩ := ho.exists_scan_eq (hfirst (s.flags [])) s.filename {}
  obtain ⟨j', hscan'⟩ := ho.exists_scan_eq (hsecond (s.flags [t])) s.filename j
  have hrun := (attempts_tokenize source s).unique (.token hscan ht (.last hscan' hending))
  rw [← hrun]
  exact ⟨rfl, rfl⟩

/-- The source has two tokens, whatever is expected in front of them: an integer with this value,
from the first unit to the last, and the end. -/
def Source.ScansAsInteger (source : Source) (n : Nat) : Prop :=
  ∃ (value : Double) (number : Token) (behind : Cursor source), value.toNat? = some n ∧
    number = (Cursor.start source).numberToken value "int" source.text.length ∧
    (∀ flags, (Cursor.start source).next flags = (.ok number, behind)) ∧
    (∀ flags, behind.next flags = (.ok behind.endToken, behind)) ∧
    ∀ s : Settings, s.observer.LetsTokensPass →
      (tokenize source s).tokens = [number, behind.endToken] ∧ (tokenize source s).failure = none

/-- A source that is one integer is scanned as the number that its digits spell, without
rounding. -/
theorem scansAsInteger_of_writesInteger {n : Nat} (hn : n ≤ Double.exactLimit)
    (h : Numeral.WritesInteger source.text n) : source.ScansAsInteger n := by
  have hbehind : ((Cursor.start source).advanceBy source.text.length).rest = [] :=
    List.drop_length
  have hfirst := Cursor.next_of_writesInteger (c := Cursor.start source) h
  have hsecond := Cursor.next_of_rest_eq_nil hbehind
  refine ⟨Double.ofNat n, _, _, Double.toNat?_ofNat hn, rfl, hfirst, hsecond, ?_⟩
  intro s ho
  exact tokenize_of_two_scans ho hfirst TokenKind.noConfusion hsecond rfl

/-- An octal integer with zeros in front of it. -/
def paddedOctal : Source := ⟨"0017", by decide +kernel⟩

/-- A decimal integer with zeros in front of it, whose last digit alone is not octal. -/
def paddedDecimal : Source := ⟨"00179", by decide +kernel⟩

theorem scansAsInteger_of_writesInteger_padded :
    15 ≤ Double.exactLimit ∧ Numeral.WritesInteger paddedOctal.text 15 ∧
      paddedOctal.ScansAsInteger 15 ∧
      179 ≤ Double.exactLimit ∧ Numeral.WritesInteger paddedDecimal.text 179 ∧
      paddedDecimal.ScansAsInteger 179 := by
  have hoctal : positional 8 "017" = 15 := by decide +kernel
  have hdecimal : positional 10 "00179" = 179 := by decide +kernel
  have hfirst : Numeral.WritesInteger paddedOctal.text 15 :=
    .octal (by decide +kernel) (hoctal ▸ Spells.of_all (by decide +kernel))
  have hsecond : Numeral.WritesInteger paddedDecimal.text 179 :=
    .zerosAndDecimal (hdecimal ▸ Spells.of_all (by decide +kernel))
      ⟨CodeUnit.ofChar '9', by decide +kernel, .inr rfl⟩
  have hsmall : 15 ≤ Double.exactLimit := by decide +kernel
  have hsmall' : 179 ≤ Double.exactLimit := by decide +kernel
  exact ⟨hsmall, hfirst, scansAsInteger_of_writesInteger hsmall hfirst, hsmall', hsecond,
    scansAsInteger_of_writesInteger hsmall' hsecond⟩

end ScriptScanner
