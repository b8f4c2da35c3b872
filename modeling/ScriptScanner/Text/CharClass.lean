import ScriptScanner.Text
set_option autoImplicit false

/-!
# Character classes

A class is a list of ranges.  It answers two questions with one table: whether a code unit is in
the class, and whether a whole text is, where a text lies in a range if it lies between the two
ends in the order of texts (unit by unit, a proper beginning first).  On a text of one unit the
two answers agree; a longer text such as `5a` lies between `0` and `9`, and the empty text lies in
no range.
-/

namespace ScriptScanner

/-- A set of code units, given by closed ranges. -/
structure CharClass where
  ranges : List (CodeUnit × CodeUnit)
  deriving DecidableEq, Repr, Inhabited

namespace CharClass

/-- Membership of a code unit. -/
def has (k : CharClass) (u : CodeUnit) : Bool :=
  k.ranges.any fun range => range.1 ≤ u && u ≤ range.2

/-- Membership of a text, in the order of texts. -/
def hasText (k : CharClass) (t : Text) : Bool :=
  k.ranges.any fun range => decide ([range.1] ≤ t) && decide (t ≤ [range.2])

/-- The class of the listed units. -/
def ofUnits (units : List CodeUnit) : CharClass := ⟨units.map fun u => (u, u)⟩

/-- The units of either class. -/
def union (k l : CharClass) : CharClass := ⟨k.ranges ++ l.ranges⟩

/-! ## The classes of the scanner -/

/-- Decimal digits. -/
def digit : CharClass := ⟨[(0x30, 0x39)]⟩

/-- Octal digits. -/
def octalDigit : CharClass := ⟨[(0x30, 0x37)]⟩

/-- Hexadecimal digits, in either case. -/
def hexDigit : CharClass := digit.union ⟨[(0x61, 0x66), (0x41, 0x46)]⟩

/-- The letters of ASCII: no other letter may stand in a name. -/
def letter : CharClass := ⟨[(0x61, 0x7A), (0x41, 0x5A)]⟩

/-- The units that may begin a name. -/
def nameStart : CharClass := letter.union (ofUnits [CodeUnit.underscore, CodeUnit.dollar])

/-- The units that may continue a name. -/
def nameContinue : CharClass := nameStart.union digit

/-- White space that never ends a line.  A carriage return is one, so a line that ends in both
characters is ended by its line feed alone. -/
def inlineSpace : CharClass := ofUnits
  [CodeUnit.space, CodeUnit.tab, CodeUnit.carriageReturn, CodeUnit.verticalTab,
    CodeUnit.formFeed, CodeUnit.noBreakSpace, CodeUnit.byteOrderMark]

/-- The flags that may follow a regular expression: `g`, `i`, `m` and `y`. -/
def regExpFlag : CharClass := ofUnits [0x67, 0x69, 0x6D, 0x79]

/-! ## Basic laws -/

theorem has_union (k l : CharClass) (u : CodeUnit) :
    (k.union l).has u = (k.has u || l.has u) := by
  simp [has, union, List.any_append]

theorem has_ofUnits (units : List CodeUnit) (u : CodeUnit) :
    (ofUnits units).has u = true ↔ u ∈ units := by
  simp only [has, ofUnits, List.any_map, List.any_eq_true, Function.comp, Bool.and_eq_true,
    decide_eq_true_eq]
  constructor
  · rintro ⟨v, hv, h₁, h₂⟩
    exact UInt16.le_antisymm h₁ h₂ ▸ hv
  · exact fun h => ⟨u, h, UInt16.le_refl u, UInt16.le_refl u⟩

/-- On a text of one unit, both questions have one answer. -/
theorem hasText_singleton (k : CharClass) (u : CodeUnit) : k.hasText [u] = k.has u := by
  simp only [hasText, has]
  congr 1
  funext range
  simp [List.cons_le_cons_iff, UInt16.le_iff_lt_or_eq]

end CharClass

end ScriptScanner
