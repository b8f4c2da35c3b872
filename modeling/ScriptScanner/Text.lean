set_option autoImplicit false

/-!
# Text: sequences of code units

Source text, token values and messages are sequences of UTF-16 code units.  Every offset, column
and length of this library counts code units, so a character outside the basic plane counts twice,
and a surrogate may stand alone.  A character string is encoded once, on the way in, and nothing
after that looks at characters again.

Cuts are given by two bounds: a bound below zero counts from the end of the text, every bound is
clamped to the text, and a range whose start is not before its stop is empty.
-/

namespace ScriptScanner

/-- One UTF-16 code unit. -/
abbrev CodeUnit := UInt16

/-- A text is the list of its code units. -/
abbrev Text := List CodeUnit

namespace CodeUnit

abbrev tab : CodeUnit := 0x09
abbrev lineFeed : CodeUnit := 0x0A
abbrev verticalTab : CodeUnit := 0x0B
abbrev formFeed : CodeUnit := 0x0C
abbrev carriageReturn : CodeUnit := 0x0D
abbrev backspace : CodeUnit := 0x08
abbrev space : CodeUnit := 0x20
abbrev doubleQuote : CodeUnit := 0x22
abbrev dollar : CodeUnit := 0x24
abbrev singleQuote : CodeUnit := 0x27
abbrev star : CodeUnit := 0x2A
abbrev plus : CodeUnit := 0x2B
abbrev minus : CodeUnit := 0x2D
abbrev dot : CodeUnit := 0x2E
abbrev slash : CodeUnit := 0x2F
abbrev zero : CodeUnit := 0x30
abbrev equals : CodeUnit := 0x3D
abbrev leftBracket : CodeUnit := 0x5B
abbrev backslash : CodeUnit := 0x5C
abbrev rightBracket : CodeUnit := 0x5D
abbrev underscore : CodeUnit := 0x5F
abbrev leftBrace : CodeUnit := 0x7B
abbrev rightBrace : CodeUnit := 0x7D
abbrev noBreakSpace : CodeUnit := 0xA0
abbrev byteOrderMark : CodeUnit := 0xFEFF

/-- The code unit of a character of the basic plane. -/
def ofChar (c : Char) : CodeUnit := UInt16.ofNat c.toNat

/-- The first half of a surrogate pair. -/
def isHighSurrogate (u : CodeUnit) : Bool := 0xD800 ≤ u && u ≤ 0xDBFF

/-- The second half of a surrogate pair. -/
def isLowSurrogate (u : CodeUnit) : Bool := 0xDC00 ≤ u && u ≤ 0xDFFF

/-- Either half of a surrogate pair. -/
def isSurrogate (u : CodeUnit) : Bool := u.isHighSurrogate || u.isLowSurrogate

end CodeUnit

namespace Text

/-! ## Encoding -/

/-- A character is one code unit, or a surrogate pair outside the basic plane. -/
def ofChar (c : Char) : Text :=
  let n := c.toNat
  if n < 0x10000 then [UInt16.ofNat n]
  else
    let m := n - 0x10000
    [UInt16.ofNat (0xD800 + m / 0x400), UInt16.ofNat (0xDC00 + m % 0x400)]

/-- The code units of a character string. -/
def ofString (s : String) : Text := s.toList.flatMap ofChar

instance : Coe String Text := ⟨ofString⟩

/-- The decimal digits of a natural number. -/
def ofNat (n : Nat) : Text := (Nat.toDigits 10 n).map CodeUnit.ofChar

/-- An integer in decimal, with a minus sign below zero. -/
def ofInt (n : Int) : Text :=
  if n < 0 then CodeUnit.minus :: ofNat n.natAbs else ofNat n.natAbs

/-- A text is well formed if every surrogate in it belongs to a pair. -/
def isWellFormed : Text → Bool
  | [] => true
  | [u] => !u.isSurrogate
  | u :: v :: rest =>
      if u.isHighSurrogate then v.isLowSurrogate && isWellFormed rest
      else !u.isLowSurrogate && isWellFormed (v :: rest)

/-- The first character of a text: a surrogate pair counts as one. -/
def firstCharacter : Text → Text
  | [] => []
  | [u] => [u]
  | u :: v :: _ => if u.isHighSurrogate && v.isLowSurrogate then [u, v] else [u]

/-! ## Cuts -/

/-- The offset that a bound names: from the end if it is below zero, and never outside. -/
def bound (t : Text) (i : Int) : Nat :=
  if i < 0 then (t.length + i).toNat else min i.toNat t.length

/-- The units from one bound up to another. -/
def slice (t : Text) (start stop : Int) : Text :=
  (t.drop (t.bound start)).take (t.bound stop - t.bound start)

/-- The unit at an offset, if the offset lies inside the text. -/
def unit? (t : Text) (i : Int) : Option CodeUnit :=
  if i < 0 then none else t[i.toNat]?

/-! ## Basic laws -/

theorem bound_le_length (t : Text) (i : Int) : t.bound i ≤ t.length := by
  unfold bound; split <;> omega

theorem bound_natCast (t : Text) (n : Nat) : t.bound n = min n t.length := by
  unfold bound; split <;> omega

theorem unit?_natCast (t : Text) (n : Nat) : t.unit? n = t[n]? := by
  rw [unit?, if_neg (by omega), Int.toNat_natCast]

/-- Between two offsets inside the text, a cut is the plain one. -/
theorem slice_natCast (t : Text) (m n : Nat) :
    t.slice m n = (t.drop m).take (n - m) := by
  simp only [slice, bound_natCast]
  rcases Nat.le_total m t.length with hm | hm
  · rw [Nat.min_eq_left hm]
    rcases Nat.le_total n t.length with hn | hn
    · rw [Nat.min_eq_left hn]
    · rw [Nat.min_eq_right hn, List.take_of_length_le (by simp),
        List.take_of_length_le (by simp; omega)]
  · rw [Nat.min_eq_right hm]
    simp [List.drop_eq_nil_of_le hm]

end Text

end ScriptScanner
