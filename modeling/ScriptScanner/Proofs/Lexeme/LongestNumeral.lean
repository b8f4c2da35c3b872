import ScriptScanner.Proofs.Lexeme.Broken
import ScriptScanner.Proofs.Lexeme.Longest
set_option autoImplicit false

/-!
# The longest number

A number is read in parts, and each part is as long as it can be: the digits, a point and the digits
behind it, a marker, a sign and the digits of an exponent.  A part that has begun must be completed,
so `0x` without a digit and an exponent without one are broken, although a shorter number stands in
front of them.  Where nothing is broken, taking the longest part each time takes the longest number
altogether.  No unit of a decimal number is an `x`, and the units in front of an exponent are digits
and a point, so the parts of a longer number would have to be these parts or longer ones.
-/

namespace ScriptScanner

namespace Numeral

open CharClass (digit hexDigit)

/-! ## The written forms -/

/-- Any digits, and perhaps a point and any digits: what may stand in front of an exponent, if it
has a digit. -/
inductive Front : Text → Prop where
  | whole {digits : Text} (hdigits : ∀ u ∈ digits, digit.has u = true) : Front digits
  | point {whole fraction : Text} (hwhole : ∀ u ∈ whole, digit.has u = true)
      (hfraction : ∀ u ∈ fraction, digit.has u = true) : Front (whole ++ CodeUnit.dot :: fraction)

/-- A decimal number without an exponent. -/
inductive IsMantissa : Text → Prop where
  | whole {digits : Text} (hdigits : ∀ u ∈ digits, digit.has u = true) (hne : digits ≠ []) :
      IsMantissa digits
  | point {whole fraction : Text} (hwhole : ∀ u ∈ whole, digit.has u = true) (hne : whole ≠ [])
      (hfraction : ∀ u ∈ fraction, digit.has u = true) :
      IsMantissa (whole ++ CodeUnit.dot :: fraction)
  | leadingPoint {fraction : Text} (hfraction : ∀ u ∈ fraction, digit.has u = true)
      (hne : fraction ≠ []) : IsMantissa (CodeUnit.dot :: fraction)

/-- A complete number. -/
inductive IsNumber : Text → Prop where
  | hexadecimal {marker : CodeUnit} {digits : Text} (hmarker : isHexMarker marker = true)
      (hdigits : ∀ u ∈ digits, hexDigit.has u = true) (hne : digits ≠ []) :
      IsNumber (CodeUnit.zero :: marker :: digits)
  | decimal {mantissa : Text} (hmantissa : IsMantissa mantissa) : IsNumber mantissa
  | scientific {mantissa digits : Text} {marker : CodeUnit} {sign : Option CodeUnit}
      (hmantissa : IsMantissa mantissa) (hmarker : isExponentMarker marker = true)
      (hsign : ∀ u ∈ sign, isSign u = true) (hdigits : ∀ u ∈ digits, digit.has u = true)
      (hne : digits ≠ []) : IsNumber (mantissa ++ marker :: (sign.toList ++ digits))

/-- The prefix of a hexadecimal number stands at the front of the text. -/
def HexAhead (t : Text) : Prop :=
  ∃ marker rest, t = CodeUnit.zero :: marker :: rest ∧ isHexMarker marker = true

/-- A unit that makes a decimal number a float: a point or the marker of an exponent. -/
def isFloatMark (u : CodeUnit) : Bool := u = CodeUnit.dot || isExponentMarker u

/-- The variant of a decimal number. -/
def decimalVariant (x : Text) : Text := if x.any isFloatMark then "float" else "int"

variable {t x y rest after : Text} {u : CodeUnit}

theorem hexAhead_iff :
    HexAhead t ↔ pairAhead (fun u => u = CodeUnit.zero) isHexMarker t = true := by
  constructor
  · rintro ⟨marker, rest, rfl, hmarker⟩
    exact hmarker
  · intro h
    match t with
    | zero :: marker :: rest =>
      obtain ⟨hzero, hmarker⟩ := Bool.and_eq_true_iff.mp h
      obtain rfl := of_decide_eq_true hzero
      exact ⟨marker, rest, rfl, hmarker⟩

/-! ## Units of numbers -/

theorem not_digit_of_isExponentMarker (h : isExponentMarker u = true) :
    digit.has u = false ∧ u ≠ CodeUnit.dot := by
  simp only [isExponentMarker, Bool.or_eq_true, decide_eq_true_eq] at h
  rcases h with rfl | rfl <;> decide

theorem not_digit_of_isSign (h : isSign u = true) : digit.has u = false := by
  simp only [isSign, Bool.or_eq_true, decide_eq_true_eq] at h
  rcases h with rfl | rfl <;> decide

/-- The marker of a hexadecimal number has no place in a decimal one. -/
theorem not_decimal_of_isHexMarker (h : isHexMarker u = true) :
    digit.has u = false ∧ u ≠ CodeUnit.dot ∧ isExponentMarker u = false ∧ isSign u = false := by
  simp only [isHexMarker, Bool.or_eq_true, decide_eq_true_eq] at h
  rcases h with rfl | rfl <;> decide

theorem isFloatMark_of_digit (h : digit.has u = true) : isFloatMark u = false := by
  rw [← Bool.not_eq_true]
  intro hmark
  rw [isFloatMark, Bool.or_eq_true, decide_eq_true_eq] at hmark
  rcases hmark with rfl | hmark
  · exact absurd h (by decide)
  · rw [(not_digit_of_isExponentMarker hmark).1] at h
    cases h

theorem any_isFloatMark_of_digits (h : ∀ u ∈ x, digit.has u = true) :
    x.any isFloatMark = false :=
  List.any_eq_false.mpr fun u hu => Bool.not_eq_true _ ▸ isFloatMark_of_digit (h u hu)

theorem Front.digit_or_dot (h : Front x) (hu : u ∈ x) : digit.has u = true ∨ u = CodeUnit.dot := by
  cases h with
  | whole hdigits => exact .inl (hdigits u hu)
  | point hwhole hfraction =>
    rcases List.mem_append.mp hu with hu | hu
    · exact .inl (hwhole u hu)
    · rcases List.mem_cons.mp hu with rfl | hu
      · exact .inr rfl
      · exact .inl (hfraction u hu)

theorem IsMantissa.front (h : IsMantissa x) : Front x := by
  cases h with
  | whole hdigits => exact .whole hdigits
  | point hwhole _ hfraction => exact .point hwhole hfraction
  | leadingPoint hfraction =>
    have hnone : ∀ u ∈ ([] : Text), digit.has u = true := nofun
    exact .point hnone hfraction

/-- Any other unit is no part of what stands in front of an exponent. -/
theorem Front.not_mem (h : Front x) (hdigit : digit.has u = false) (hdot : u ≠ CodeUnit.dot) :
    u ∉ x := by
  intro hmem
  rcases h.digit_or_dot hmem with hu | hu
  · rw [hdigit] at hu
    cases hu
  · exact hdot hu

/-- A number with the marker of a hexadecimal number in it is one. -/
theorem IsNumber.exists_of_mem (h : IsNumber x) (hu : isHexMarker u = true) (hmem : u ∈ x) :
    ∃ (marker : CodeUnit) (digits : Text), x = CodeUnit.zero :: marker :: digits ∧
      ∀ v ∈ digits, hexDigit.has v = true := by
  obtain ⟨hdigit, hdot, hexponent, hsigned⟩ := not_decimal_of_isHexMarker hu
  cases h with
  | hexadecimal _ hdigits => exact ⟨_, _, rfl, hdigits⟩
  | decimal hmantissa => exact absurd hmem (hmantissa.front.not_mem hdigit hdot)
  | scientific hmantissa hmarker hsign hdigits =>
    rcases List.mem_append.mp hmem with hmem | hmem
    · exact absurd hmem (hmantissa.front.not_mem hdigit hdot)
    · rcases List.mem_cons.mp hmem with rfl | hmem
      · rw [hmarker] at hexponent
        cases hexponent
      · rcases List.mem_append.mp hmem with hmem | hmem
        · rw [hsign u (Option.mem_toList.mp hmem)] at hsigned
          cases hsigned
        · rw [hdigits u hmem] at hdigit
          cases hdigit

/-! ## The part in front of an exponent -/

theorem splitDigits_append (hx : ∀ u ∈ x, digit.has u = true)
    (hstop : ∀ u ∈ after.head?, digit.has u = false) : splitDigits (x ++ after) = (x, after) := by
  obtain ⟨htake, hdrop⟩ := Trivia.cut_append hx hstop
  exact Prod.ext htake hdrop

section Parts

variable {whole afterWhole : Text} {fraction : Option Text}

theorem digits_of_splitDigits (h : splitDigits t = (whole, afterWhole)) :
    ∀ u ∈ whole, digit.has u = true := by
  cases h
  exact fun u hu => List.mem_takeWhile_imp hu

theorem digits_of_splitFraction (h : splitFraction t = (fraction, after)) :
    ∀ digits ∈ fraction, ∀ u ∈ digits, digit.has u = true := by
  rintro digits hdigits
  cases t with
  | nil =>
    cases h
    cases hdigits
  | cons u rest =>
    rw [splitFraction] at h
    split at h
    · cases h
      cases hdigits
      exact fun u hu => List.mem_takeWhile_imp hu
    · cases h
      cases hdigits

theorem front_of_parts (hwhole : ∀ u ∈ whole, digit.has u = true)
    (hfraction : ∀ digits ∈ fraction, ∀ u ∈ digits, digit.has u = true) :
    Front (whole ++ fractionSpelling fraction) := by
  cases fraction with
  | none =>
    show Front (whole ++ [])
    rw [List.append_nil]
    exact .whole hwhole
  | some digits => exact .point hwhole (hfraction digits rfl)

/-- What is split off in front of an exponent is the longest text of its form. -/
theorem longest_front (hdigits : splitDigits t = (whole, afterWhole))
    (hfraction : splitFraction afterWhole = (fraction, after)) :
    Text.Longest Front (whole ++ fractionSpelling fraction) t := by
  obtain ⟨ht, -⟩ := splitsFront_splitDigits _ _ _ hdigits
  obtain ⟨hafter, -⟩ := splitsFront_splitFraction _ _ _ hfraction
  have hwhole : whole = t.takeWhile digit.has := (congrArg Prod.fst hdigits).symm
  refine ⟨⟨after, by rw [List.append_assoc, ← hafter, ← ht]⟩, front_of_parts ?_ ?_, ?_⟩
  · exact digits_of_splitDigits hdigits
  · exact digits_of_splitFraction hfraction
  · intro y hy hfront
    rw [List.length_append]
    cases hfront with
    | whole hyDigits =>
      have hle := (Text.longestRun_takeWhile digit t).longest y hy hyDigits
      rw [hwhole]
      exact Nat.le_trans hle (Nat.le_add_right _ _)
    | @point w f hw hf =>
      obtain ⟨z, rfl⟩ := hy
      have hdot : ∀ u ∈ (CodeUnit.dot :: (f ++ z)).head?, digit.has u = false :=
        fun u hu => Option.some.inj hu ▸ by decide
      rw [List.append_assoc, List.cons_append, splitDigits_append hw hdot] at hdigits
      cases hdigits
      rw [splitFraction, if_pos rfl] at hfraction
      cases hfraction
      have hrun : (splitDigits (f ++ z)).1 = f ++ (splitDigits z).1 :=
        List.takeWhile_append_of_pos hf
      rw [hrun]
      simp only [fractionSpelling, Option.map_some, Option.getD_some, List.length_append,
        List.length_cons]
      omega

theorem exists_longest_front (t : Text) :
    ∃ x after, t = x ++ after ∧ Text.Longest Front x t := by
  have hlongest := longest_front (t := t) rfl rfl
  obtain ⟨after, ht⟩ := hlongest.isFront
  exact ⟨_, after, ht.symm, hlongest⟩

/-- Where no hexadecimal number stands, the longest front is split into its digits, and the rest is
asked for an exponent. -/
theorem exists_readExponent_eq (hhex : ¬ HexAhead t) (hx : Text.Longest Front x t)
    (ht : t = x ++ after) :
    ∃ whole fraction, x = whole ++ fractionSpelling fraction ∧
      (∀ u ∈ whole, digit.has u = true) ∧
      (∀ digits ∈ fraction, ∀ u ∈ digits, digit.has u = true) ∧
      readParts t = readExponent whole fraction after := by
  rcases hdigits : splitDigits t with ⟨whole, afterWhole⟩
  rcases hfraction : splitFraction afterWhole with ⟨fraction, beyond⟩
  obtain ⟨hcut, -⟩ := splitsFront_splitDigits _ _ _ hdigits
  obtain ⟨hcut', -⟩ := splitsFront_splitFraction _ _ _ hfraction
  have hlongest := longest_front hdigits hfraction
  obtain rfl := hx.unique hlongest
  have hafter : after = beyond := by
    rw [hcut', ← List.append_assoc, ht] at hcut
    exact List.append_cancel_left hcut
  rw [hexAhead_iff, Bool.not_eq_true] at hhex
  refine ⟨whole, fraction, rfl, digits_of_splitDigits hdigits, digits_of_splitFraction hfraction,
    ?_⟩
  rw [readParts_eq_readDecimal hhex, readDecimal, hdigits]
  simp only [hfraction, hafter]

end Parts

/-! ## What is read -/

/-- The lexeme of a number. -/
def numberLexeme (value : Double) (variant : Text) : Lexeme :=
  { kind := .number, content := .number value, variant }

theorem readParts_of_hexAhead {marker : CodeUnit} (hmarker : isHexMarker marker = true)
    (rest : Text) :
    readParts (CodeUnit.zero :: marker :: rest) = readHexadecimal marker rest := by
  rw [readParts, hmarker]
  rfl

theorem read_of_hexDigits {marker : CodeUnit} {digits : Text} (hmarker : isHexMarker marker = true)
    (hdigits : Text.LongestRun hexDigit digits rest) (hne : digits ≠ []) :
    read (CodeUnit.zero :: marker :: rest) =
      .found (numberLexeme (hexadecimal marker digits).value "int")
        (CodeUnit.zero :: marker :: digits).length := by
  obtain rfl := Text.longestRun_iff.mp hdigits
  rw [read, readParts_of_hexAhead hmarker, readHexadecimal, if_neg (mt List.isEmpty_iff.mp hne)]
  rfl

theorem read_of_no_hexDigits {marker : CodeUnit} (hmarker : isHexMarker marker = true)
    (hdigits : Text.LongestRun hexDigit [] rest) :
    read (CodeUnit.zero :: marker :: rest) =
      .broken (.missingHexDigits [CodeUnit.zero, marker]) 0 2 := by
  have hnone := Text.longestRun_iff.mp hdigits
  rw [read, readParts_of_hexAhead hmarker, readHexadecimal, ← hnone]
  rfl

/-- A decimal number is a float exactly if its text has a mark of one. -/
theorem any_isFloatMark_spelling {whole : Text} {fraction : Option Text}
    {exponent : Option Exponent} (hwhole : ∀ u ∈ whole, digit.has u = true)
    (hmarker : ∀ e ∈ exponent, isExponentMarker e.marker = true) :
    (decimal whole fraction exponent).spelling.any isFloatMark =
      (decimal whole fraction exponent).isFloat := by
  rw [spelling, isFloat, List.any_append, List.any_append, any_isFloatMark_of_digits hwhole,
    Bool.false_or]
  congr 1
  · cases fraction <;> rfl
  · cases exponent with
    | none => rfl
    | some e =>
      show (isFloatMark e.marker || _) = true
      rw [isFloatMark, hmarker e rfl, Bool.or_true, Bool.true_or]

theorem lexeme_decimal {whole : Text} {fraction : Option Text} {exponent : Option Exponent}
    (hwhole : ∀ u ∈ whole, digit.has u = true)
    (hmarker : ∀ e ∈ exponent, isExponentMarker e.marker = true) :
    (decimal whole fraction exponent).lexeme =
      numberLexeme (decimal whole fraction exponent).value
        (decimalVariant (decimal whole fraction exponent).spelling) := by
  rw [lexeme, numberLexeme, decimalVariant, any_isFloatMark_spelling hwhole hmarker]

/-- Without the marker of an exponent the number ends. -/
theorem read_of_no_marker (hhex : ¬ HexAhead t) (hx : Text.Longest Front x t) (ht : t = x ++ after)
    (hstop : ∀ u ∈ after.head?, isExponentMarker u = false) :
    ∃ value, read t = .found (numberLexeme value (decimalVariant x)) x.length := by
  obtain ⟨whole, fraction, rfl, hwhole, -, hparts⟩ := exists_readExponent_eq hhex hx ht
  have hspelling : (decimal whole fraction none).spelling = whole ++ fractionSpelling fraction :=
    List.append_nil _
  have hmarker : ∀ e ∈ (none : Option Exponent), isExponentMarker e.marker = true := by
    rintro e ⟨⟩
  refine ⟨(decimal whole fraction none).value, ?_⟩
  rw [read, hparts, readExponent_of_no_marker hstop, Reading.map, lexeme_decimal hwhole hmarker,
    hspelling]

section Scientific

variable {marker : CodeUnit} {sign : Option CodeUnit} {unsigned digits : Text}

theorem splitSign_append (h : sign = (sign.toList ++ rest).head?.filter isSign) :
    splitSign (sign.toList ++ rest) = (sign, rest) := by
  cases sign with
  | none =>
    apply splitSign_of_no_sign
    intro u hu
    have hnone : (some u).filter isSign = none := by rw [← hu, h.symm]
    rw [← Bool.not_eq_true]
    intro hsigned
    rw [Option.filter_some, if_pos hsigned] at hnone
    cases hnone
  | some u =>
    have hu : isSign u = true := (Option.filter_eq_some_iff.mp h.symm).2
    exact if_pos hu

/-- A text begins with a sign, or it begins with none. -/
theorem exists_sign (t : Text) :
    ∃ (sign : Option CodeUnit) (unsigned : Text), t = sign.toList ++ unsigned ∧
      sign = (sign.toList ++ unsigned).head?.filter isSign := by
  obtain hstop | ⟨u, rest, rfl, hu⟩ := stops_or_cons isSign t
  · refine ⟨none, t, rfl, ?_⟩
    cases t with
    | nil => rfl
    | cons u rest => exact (Option.filter_some_neg (hstop u rfl)).symm
  · exact ⟨some u, rest, rfl, (Option.filter_some_pos hu).symm⟩

theorem spelling_scientific (whole : Text) (fraction : Option Text) :
    (decimal whole fraction (some ⟨marker, sign, digits⟩)).spelling =
      whole ++ fractionSpelling fraction ++ marker :: (sign.toList ++ digits) := rfl

theorem read_of_exponent (hhex : ¬ HexAhead t) (hx : Text.Longest Front x t)
    (ht : t = x ++ marker :: (sign.toList ++ unsigned)) (hmarker : isExponentMarker marker = true)
    (hsign : sign = (sign.toList ++ unsigned).head?.filter isSign)
    (hdigits : Text.LongestRun digit digits unsigned) (hne : digits ≠ []) :
    ∃ value, read t =
      .found (numberLexeme value (decimalVariant (x ++ marker :: (sign.toList ++ digits))))
        (x ++ marker :: (sign.toList ++ digits)).length := by
  obtain ⟨whole, fraction, rfl, hwhole, -, hparts⟩ := exists_readExponent_eq hhex hx ht
  obtain rfl := Text.longestRun_iff.mp hdigits
  let exponent : Exponent := ⟨marker, sign, unsigned.takeWhile digit.has⟩
  have hmarkers : ∀ e ∈ some exponent, isExponentMarker e.marker = true := by
    rintro e ⟨⟩
    exact hmarker
  refine ⟨(decimal whole fraction (some exponent)).value, ?_⟩
  rw [read, hparts]
  simp only [readExponent, hmarker, if_true, splitSign_append hsign]
  rw [splitDigits, if_neg (mt List.isEmpty_iff.mp hne), Reading.map,
    lexeme_decimal hwhole hmarkers, spelling_scientific]

theorem read_of_no_exponent (hhex : ¬ HexAhead t) (hx : Text.Longest Front x t)
    (ht : t = x ++ marker :: (sign.toList ++ unsigned)) (hmarker : isExponentMarker marker = true)
    (hsign : sign = (sign.toList ++ unsigned).head?.filter isSign)
    (hdigits : Text.LongestRun digit [] unsigned) :
    read t = .broken (.missingExponent (x ++ marker :: sign.toList))
      (x ++ marker :: sign.toList).length (x ++ marker :: sign.toList).length := by
  obtain ⟨whole, fraction, rfl, -, -, hparts⟩ := exists_readExponent_eq hhex hx ht
  have hnone := Text.longestRun_iff.mp hdigits
  rw [read, hparts]
  simp only [readExponent, hmarker, if_true, splitSign_append hsign]
  rw [splitDigits, ← hnone]
  simp only [List.isEmpty_nil, if_true, Reading.map, spelling_scientific, List.append_nil]

end Scientific

/-! ## Whatever is longer -/

/-- What a number begins with is a complete mantissa. -/
theorem isMantissa_of_longest (hstart : startsHere t = true) (hx : Text.Longest Front x t) :
    IsMantissa x := by
  obtain ⟨after, ht⟩ := hx.isFront
  cases t with
  | nil => cases hstart
  | cons u rest =>
    rw [startsHere, Bool.or_eq_true, Bool.and_eq_true, decide_eq_true_eq] at hstart
    rcases hstart with hu | ⟨rfl, hhead⟩
    · -- the first unit is a digit, so a point is not the first one
      have hone : [u].length ≤ x.length := by
        apply hx.longest [u] ⟨rest, rfl⟩
        exact .whole fun v hv => List.mem_singleton.mp hv ▸ hu
      have hne : x ≠ [] := List.length_pos_iff.mp hone
      cases hx.belongs with
      | whole hdigits => exact .whole hdigits hne
      | @point whole fraction hwhole hfraction =>
        refine .point hwhole ?_ hfraction
        rintro rfl
        obtain ⟨rfl, -⟩ := List.cons.inj ht
        exact absurd hu (by decide)
    · -- the first unit is a point and the second a digit, so the digits are behind the point
      obtain ⟨d, hd, hdigit⟩ := (Option.any_eq_true _ _).mp hhead
      obtain ⟨beyond, rfl⟩ := List.head?_eq_some_iff.mp hd
      have htwo : [CodeUnit.dot, d].length ≤ x.length := by
        have hnone : ∀ v ∈ ([] : Text), digit.has v = true := List.forall_mem_nil _
        apply hx.longest [CodeUnit.dot, d] ⟨beyond, rfl⟩
        exact .point hnone fun v hv => List.mem_singleton.mp hv ▸ hdigit
      cases hx.belongs with
      | whole hdigits =>
        have hpos : 0 < x.length := Nat.lt_of_lt_of_le Nat.zero_lt_two htwo
        obtain ⟨u, y, rfl⟩ := List.exists_cons_of_length_pos hpos
        obtain ⟨rfl, -⟩ := List.cons.inj ht
        exact absurd (hdigits _ List.mem_cons_self) (by decide)
      | @point whole fraction hwhole hfraction =>
        cases whole with
        | nil =>
          have hne : fraction ≠ [] := List.length_pos_iff.mp (Nat.le_of_succ_le_succ htwo)
          exact .leadingPoint hfraction hne
        | cons u whole =>
          obtain ⟨rfl, -⟩ := List.cons.inj ht
          exact absurd (hwhole _ List.mem_cons_self) (by decide)

/-- An exponent that follows a mantissa follows the longest front. -/
theorem eq_of_exponent_behind {mantissa beyond : Text} {marker : CodeUnit}
    (hx : Text.Longest Front x t) (hmantissa : IsMantissa mantissa)
    (hmarker : isExponentMarker marker = true) (ht : t = mantissa ++ marker :: beyond) :
    mantissa = x := by
  have hfront : mantissa <+: t := ⟨_, ht.symm⟩
  obtain ⟨w, rfl⟩ := List.prefix_of_prefix_length_le hfront hx.isFront
    (hx.longest mantissa hfront hmantissa.front)
  cases w with
  | nil => exact (List.append_nil mantissa).symm
  | cons u w =>
    -- the longest front would go on with the marker
    obtain ⟨after, hafter⟩ := hx.isFront
    rw [ht, List.append_assoc] at hafter
    obtain ⟨rfl, -⟩ := List.cons.inj (List.append_cancel_left hafter)
    obtain ⟨hdigit, hdot⟩ := not_digit_of_isExponentMarker hmarker
    exact absurd (List.mem_append_right mantissa List.mem_cons_self)
      (hx.belongs.not_mem hdigit hdot)

/-- A sign that digits follow is the one that stands there. -/
theorem eq_of_signed_prefix {sign sign' : Option CodeUnit} {unsigned digits : Text}
    (hsign : sign = (sign.toList ++ unsigned).head?.filter isSign)
    (hsign' : ∀ u ∈ sign', isSign u = true) (hdigits : ∀ u ∈ digits, digit.has u = true)
    (hne : digits ≠ []) (h : sign'.toList ++ digits <+: sign.toList ++ unsigned) :
    sign' = sign ∧ digits <+: unsigned := by
  obtain ⟨z, hz⟩ := h
  have hsame : sign' = sign := by
    rw [hsign, ← hz]
    cases sign' with
    | none =>
      obtain ⟨d, digits, rfl⟩ := List.exists_cons_of_ne_nil hne
      have hd : isSign d = false := by
        rw [← Bool.not_eq_true]
        intro hsigned
        have hplain := not_digit_of_isSign hsigned
        rw [hdigits d List.mem_cons_self] at hplain
        cases hplain
      exact (Option.filter_some_neg hd).symm
    | some u => exact (Option.filter_some_pos (hsign' u rfl)).symm
  subst hsame
  refine ⟨rfl, z, ?_⟩
  rw [List.append_assoc] at hz
  exact List.append_cancel_left hz

/-- A number at the front of a text without a hexadecimal prefix is a front, or it is the longest
front with an exponent behind it. -/
theorem IsNumber.cases_of_longest (hy : IsNumber y) (hfront : y <+: t) (hhex : ¬ HexAhead t)
    (hx : Text.Longest Front x t) :
    y.length ≤ x.length ∨ ∃ (marker : CodeUnit) (sign : Option CodeUnit) (digits : Text),
      y = x ++ marker :: (sign.toList ++ digits) ∧
      isExponentMarker marker = true ∧ (∀ u ∈ sign, isSign u = true) ∧
      (∀ u ∈ digits, digit.has u = true) ∧ digits ≠ [] := by
  cases hy with
  | hexadecimal hmarker =>
    obtain ⟨z, rfl⟩ := hfront
    exact absurd ⟨_, _, rfl, hmarker⟩ hhex
  | decimal hmantissa => exact .inl (hx.longest y hfront hmantissa.front)
  | @scientific mantissa digits marker sign hmantissa hmarker hsign hdigits hne =>
    obtain ⟨z, hz⟩ := hfront
    rw [List.append_assoc, List.cons_append] at hz
    obtain rfl := eq_of_exponent_behind hx hmantissa hmarker hz.symm
    exact .inr ⟨marker, sign, digits, rfl, hmarker, hsign, hdigits, hne⟩

theorem longest_hexadecimal {marker : CodeUnit} {digits : Text}
    (hmarker : isHexMarker marker = true) (hdigits : Text.LongestRun hexDigit digits rest)
    (hne : digits ≠ []) :
    Text.Longest IsNumber (CodeUnit.zero :: marker :: digits)
      (CodeUnit.zero :: marker :: rest) where
  isFront := (List.prefix_cons_inj _).mpr ((List.prefix_cons_inj _).mpr hdigits.isFront)
  belongs := .hexadecimal hmarker hdigits.belongs hne
  longest y hy hnumber := by
    match y with
    | [] => exact Nat.zero_le _
    | [_] => exact Nat.succ_le_succ (Nat.zero_le _)
    | u :: v :: z =>
      -- the second unit is the marker, so this is a hexadecimal number too
      obtain ⟨-, hsecond⟩ := List.cons_prefix_cons.mp hy
      obtain ⟨rfl, hz⟩ := List.cons_prefix_cons.mp hsecond
      have hmem : v ∈ u :: v :: z := List.mem_cons_of_mem u List.mem_cons_self
      obtain ⟨w, digits', heq, hdigits'⟩ := hnumber.exists_of_mem hmarker hmem
      obtain ⟨-, hrest⟩ := List.cons.inj heq
      obtain ⟨-, rfl⟩ := List.cons.inj hrest
      exact Nat.succ_le_succ (Nat.succ_le_succ (hdigits.longest z hz hdigits'))

theorem longest_plain (hstart : startsHere t = true) (hhex : ¬ HexAhead t)
    (hx : Text.Longest Front x t) (ht : t = x ++ after)
    (hstop : ∀ u ∈ after.head?, isExponentMarker u = false) : Text.Longest IsNumber x t where
  isFront := hx.isFront
  belongs := .decimal (isMantissa_of_longest hstart hx)
  longest y hy hnumber := by
    rcases hnumber.cases_of_longest hy hhex hx with hle | ⟨marker, sign, digits, rfl, hmarker, -⟩
    · exact hle
    · obtain ⟨z, hz⟩ := hy
      rw [ht, List.append_assoc] at hz
      obtain rfl := List.append_cancel_left hz
      rw [hstop marker rfl] at hmarker
      cases hmarker

theorem longest_scientific {marker : CodeUnit} {sign : Option CodeUnit} {unsigned digits : Text}
    (hstart : startsHere t = true) (hhex : ¬ HexAhead t) (hx : Text.Longest Front x t)
    (ht : t = x ++ marker :: (sign.toList ++ unsigned)) (hmarker : isExponentMarker marker = true)
    (hsign : sign = (sign.toList ++ unsigned).head?.filter isSign)
    (hdigits : Text.LongestRun digit digits unsigned) (hne : digits ≠ []) :
    Text.Longest IsNumber (x ++ marker :: (sign.toList ++ digits)) t where
  isFront := by
    rw [ht, List.prefix_append_right_inj, List.prefix_cons_inj, List.prefix_append_right_inj]
    exact hdigits.isFront
  belongs := by
    refine .scientific (isMantissa_of_longest hstart hx) hmarker ?_ hdigits.belongs hne
    rintro u rfl
    exact (Option.filter_eq_some_iff.mp hsign.symm).2
  longest y hy hnumber := by
    rcases hnumber.cases_of_longest hy hhex hx with
      hle | ⟨marker', sign', digits', rfl, -, hsign', hdigits', hne'⟩
    · rw [List.length_append]
      exact Nat.le_trans hle (Nat.le_add_right _ _)
    · rw [ht, List.prefix_append_right_inj] at hy
      obtain ⟨-, hexponent⟩ := List.cons_prefix_cons.mp hy
      obtain ⟨rfl, hrun⟩ := eq_of_signed_prefix hsign hsign' hdigits' hne' hexponent
      have hle := hdigits.longest digits' hrun hdigits'
      simp only [List.length_append, List.length_cons]
      omega

end Numeral

/-! ## Tokens -/

namespace Cursor

open Numeral
open CharClass (digit hexDigit)

variable {source : Source} {c : Cursor source}

/-- The token of a number with so many units. -/
def numberToken (c : Cursor source) (value : Double) (variant : Text) (length : Nat) : Token :=
  { kind := .number, content := .number value, variant, toPosition := c.toPosition,
    start := c.offset, stop := (c.offset + length : Nat) }

/-- The number at the cursor is taken, and this is its text and its variant. -/
def TakesNumber (c : Cursor source) (x variant : Text) : Prop :=
  x <+: c.rest ∧ ∃ value, c.token (Numeral.read c.rest) =
    (.ok (c.numberToken value variant x.length), c.advanceBy x.length)

/-- The number at the cursor is broken, and this is reported. -/
def FailsAtNumber (c : Cursor source) (m : LocatedFault) : Prop :=
  ∃ c', c.token (Numeral.read c.rest) = (.error m, c')

/-- What is read of the number at the cursor: the longest text in each part. -/
structure TakesLongestNumber (c : Cursor source) : Prop where
  /-- Behind `0x` stand all hexadecimal digits, and if there is none, the number is broken. -/
  hexadecimal : ∀ {marker : CodeUnit} {rest digits : Text},
    c.rest = CodeUnit.zero :: marker :: rest → isHexMarker marker = true →
      Text.LongestRun hexDigit digits rest →
        (c.FailsAtNumber ⟨.missingHexDigits [CodeUnit.zero, marker], c.location⟩ ↔ digits = []) ∧
          (digits ≠ [] → c.TakesNumber (CodeUnit.zero :: marker :: digits) "int")
  /-- Otherwise the longest front is the number, if no marker of an exponent follows. -/
  plain : ∀ {x after : Text}, ¬ HexAhead c.rest → Text.Longest Front x c.rest →
    c.rest = x ++ after → (∀ u ∈ after.head?, isExponentMarker u = false) →
      c.TakesNumber x (decimalVariant x)
  /-- If one follows, there is a sign or none, and then all digits; if there is no digit, the number
  is broken. -/
  scientific : ∀ {x unsigned digits : Text} {marker : CodeUnit} {sign : Option CodeUnit},
    ¬ HexAhead c.rest → Text.Longest Front x c.rest →
      c.rest = x ++ marker :: (sign.toList ++ unsigned) → isExponentMarker marker = true →
        sign = (sign.toList ++ unsigned).head?.filter isSign →
          Text.LongestRun digit digits unsigned →
            (c.FailsAtNumber ⟨.missingExponent (x ++ marker :: sign.toList),
                (c.advanceBy (x ++ marker :: sign.toList).length).location⟩ ↔ digits = []) ∧
              (digits ≠ [] → c.TakesNumber (x ++ marker :: (sign.toList ++ digits))
                (decimalVariant (x ++ marker :: (sign.toList ++ digits))))
  /-- What a token covers is the longest number that stands there. -/
  longest : ∀ {t : Token} {c' : Cursor source}, c.token (Numeral.read c.rest) = (.ok t, c') →
    Text.Longest IsNumber (source.text.slice t.start t.stop) c.rest

theorem takesNumber_of_read {x variant : Text} {value : Double} (hx : x <+: c.rest)
    (h : Numeral.read c.rest = .found (numberLexeme value variant) x.length) :
    c.TakesNumber x variant := by
  refine ⟨hx, value, ?_⟩
  rw [h, token_found hx.length_le]
  rfl

theorem failsAtNumber_of_read {fault : Fault} {site n : Nat}
    (h : Numeral.read c.rest = .broken fault site n) :
    c.FailsAtNumber ⟨fault, (c.advanceBy site).location⟩ :=
  ⟨c.advanceBy n, by rw [h, token]⟩

/-- A number that is taken is not broken. -/
theorem TakesNumber.not_fails {x variant : Text} {m : LocatedFault} (h : c.TakesNumber x variant) :
    ¬ c.FailsAtNumber m := by
  rintro ⟨c', hfails⟩
  obtain ⟨-, value, htakes⟩ := h
  cases htakes.symm.trans hfails

/-- A token that is taken covers its text. -/
theorem TakesNumber.slice_eq {x variant : Text} {t : Token} {c' : Cursor source}
    (h : c.TakesNumber x variant) (ht : c.token (Numeral.read c.rest) = (.ok t, c')) :
    source.text.slice t.start t.stop = x := by
  obtain ⟨hfront, value, htakes⟩ := h
  cases ht.symm.trans htakes
  show source.text.slice (c.offset : Nat) (c.offset + x.length : Nat) = x
  rw [Text.slice_natCast, ← c.rest_eq, Nat.add_sub_cancel_left]
  exact (List.prefix_iff_eq_take.mp hfront).symm

theorem takesNumber_of_hexDigits {marker : CodeUnit} {rest digits : Text}
    (h : c.rest = CodeUnit.zero :: marker :: rest) (hmarker : isHexMarker marker = true)
    (hdigits : Text.LongestRun hexDigit digits rest) (hne : digits ≠ []) :
    c.TakesNumber (CodeUnit.zero :: marker :: digits) "int" := by
  have hlongest := longest_hexadecimal hmarker hdigits hne
  apply takesNumber_of_read (h ▸ hlongest.isFront)
  rw [h, read_of_hexDigits hmarker hdigits hne]

theorem failsAtNumber_of_no_hexDigits {marker : CodeUnit} {rest : Text}
    (h : c.rest = CodeUnit.zero :: marker :: rest) (hmarker : isHexMarker marker = true)
    (hdigits : Text.LongestRun hexDigit [] rest) :
    c.FailsAtNumber ⟨.missingHexDigits [CodeUnit.zero, marker], c.location⟩ := by
  have hread := read_of_no_hexDigits hmarker hdigits
  rw [← h] at hread
  have hfails := failsAtNumber_of_read hread
  rwa [advanceBy_zero] at hfails

theorem takesNumber_of_exponent {x unsigned digits : Text} {marker : CodeUnit}
    {sign : Option CodeUnit} (hstart : startsHere c.rest = true) (hhex : ¬ HexAhead c.rest)
    (hx : Text.Longest Front x c.rest) (h : c.rest = x ++ marker :: (sign.toList ++ unsigned))
    (hmarker : isExponentMarker marker = true)
    (hsign : sign = (sign.toList ++ unsigned).head?.filter isSign)
    (hdigits : Text.LongestRun digit digits unsigned) (hne : digits ≠ []) :
    c.TakesNumber (x ++ marker :: (sign.toList ++ digits))
      (decimalVariant (x ++ marker :: (sign.toList ++ digits))) := by
  obtain ⟨value, hread⟩ := read_of_exponent hhex hx h hmarker hsign hdigits hne
  have hlongest := longest_scientific hstart hhex hx h hmarker hsign hdigits hne
  exact takesNumber_of_read hlongest.isFront hread

/-- What is taken is the longest number. -/
theorem exists_longest_of_token {t : Token} {c' : Cursor source}
    (hstart : startsHere c.rest = true) (ht : c.token (Numeral.read c.rest) = (.ok t, c')) :
    ∃ x variant, c.TakesNumber x variant ∧ Text.Longest IsNumber x c.rest := by
  have hfound : ∀ {m : LocatedFault}, ¬ c.FailsAtNumber m := by
    rintro m ⟨d, hfails⟩
    cases ht.symm.trans hfails
  by_cases hhex : HexAhead c.rest
  · obtain ⟨marker, rest, h, hmarker⟩ := hhex
    have hdigits := Text.longestRun_takeWhile hexDigit rest
    by_cases hne : rest.takeWhile hexDigit.has = []
    · rw [hne] at hdigits
      exact absurd (failsAtNumber_of_no_hexDigits h hmarker hdigits) hfound
    · refine ⟨_, _, takesNumber_of_hexDigits h hmarker hdigits hne, ?_⟩
      rw [h]
      exact longest_hexadecimal hmarker hdigits hne
  · obtain ⟨x, after, h, hx⟩ := exists_longest_front c.rest
    obtain hstop | ⟨marker, signed, rfl, hmarker⟩ := stops_or_cons isExponentMarker after
    · obtain ⟨value, hread⟩ := read_of_no_marker hhex hx h hstop
      exact ⟨x, _, takesNumber_of_read hx.isFront hread, longest_plain hstart hhex hx h hstop⟩
    · obtain ⟨sign, unsigned, rfl, hsign⟩ := exists_sign signed
      have hdigits := Text.longestRun_takeWhile digit unsigned
      by_cases hne : unsigned.takeWhile digit.has = []
      · rw [hne] at hdigits
        exact absurd (failsAtNumber_of_read (read_of_no_exponent hhex hx h hmarker hsign hdigits))
          hfound
      · exact ⟨_, _, takesNumber_of_exponent hstart hhex hx h hmarker hsign hdigits hne,
          longest_scientific hstart hhex hx h hmarker hsign hdigits hne⟩

/-- At a number the longest text is read, part by part and altogether, and a part that has begun
and cannot be completed is reported. -/
theorem takesLongestNumber (hstart : startsHere c.rest = true) : c.TakesLongestNumber where
  hexadecimal := by
    intro marker rest digits h hmarker hdigits
    refine ⟨⟨fun hfails => ?_, ?_⟩, takesNumber_of_hexDigits h hmarker hdigits⟩
    · by_contra hne
      exact (takesNumber_of_hexDigits h hmarker hdigits hne).not_fails hfails
    · rintro rfl
      exact failsAtNumber_of_no_hexDigits h hmarker hdigits
  plain := by
    intro x after hhex hx ht hstop
    obtain ⟨value, hread⟩ := read_of_no_marker hhex hx ht hstop
    exact takesNumber_of_read hx.isFront hread
  scientific := by
    intro x unsigned digits marker sign hhex hx ht hmarker hsign hdigits
    have htakes := takesNumber_of_exponent hstart hhex hx ht hmarker hsign hdigits
    refine ⟨⟨fun hfails => ?_, ?_⟩, htakes⟩
    · by_contra hne
      exact (htakes hne).not_fails hfails
    · rintro rfl
      exact failsAtNumber_of_read (read_of_no_exponent hhex hx ht hmarker hsign hdigits)
  longest := by
    intro t c' ht
    obtain ⟨x, variant, htakes, hlongest⟩ := exists_longest_of_token hstart ht
    rw [htakes.slice_eq ht]
    exact hlongest

/-- A hexadecimal number before another letter, and a number whose exponent has a sign and no
digit. -/
def crowdedNumerals : Source := ⟨"0xFg .5e+x", by decide +kernel⟩

theorem takesLongestNumber_crowdedNumerals :
    startsHere (start crowdedNumerals).rest = true ∧
      (start crowdedNumerals).TakesNumber "0xF" "int" ∧
      startsHere ((start crowdedNumerals).advanceBy 5).rest = true ∧
      ((start crowdedNumerals).advanceBy 5).FailsAtNumber
        ⟨.missingExponent ".5e+", ⟨⟨1, 10⟩, 9⟩⟩ := by
  have hfirst : startsHere (start crowdedNumerals).rest = true := by decide +kernel
  have hsecond : startsHere ((start crowdedNumerals).advanceBy 5).rest = true := by decide +kernel
  have hprefix : (start crowdedNumerals).rest =
      CodeUnit.zero :: CodeUnit.ofChar 'x' :: crowdedNumerals.text.drop 2 := by decide +kernel
  have hrun : Text.LongestRun hexDigit "F" (crowdedNumerals.text.drop 2) :=
    Text.longestRun_iff.mpr (by decide +kernel)
  have hhex : ¬ HexAhead ((start crowdedNumerals).advanceBy 5).rest := by
    rw [hexAhead_iff]
    decide +kernel
  have hwhole : splitDigits ((start crowdedNumerals).advanceBy 5).rest =
      ([], Text.ofString ".5e+x") := by decide +kernel
  have hfraction : splitFraction ".5e+x" = (some (Text.ofString "5"), Text.ofString "e+x") := by
    decide +kernel
  have hfront : Text.Longest Front ".5" ((start crowdedNumerals).advanceBy 5).rest :=
    longest_front hwhole hfraction
  have hcut : ((start crowdedNumerals).advanceBy 5).rest =
      Text.ofString ".5" ++ CodeUnit.ofChar 'e' ::
        ((some CodeUnit.plus).toList ++ Text.ofString "x") := by decide +kernel
  have hnone : Text.LongestRun digit [] "x" := Text.longestRun_iff.mpr (by decide +kernel)
  exact ⟨hfirst, ((takesLongestNumber hfirst).hexadecimal hprefix rfl hrun).2 (by decide +kernel),
    hsecond, ((takesLongestNumber hsecond).scientific hhex hfront hcut rfl rfl hnone).1.mpr rfl⟩

end Cursor

end ScriptScanner
