import ScriptScanner.Double.Whole
set_option autoImplicit false

/-!
# Positions and locations

A position is a line and a column, both counted from one; a line feed ends its line, and no other
unit does.  The numbers are integers because a host may report positions of its own making, and a
scan may start from any of them.  They are counted as doubles are, which is exact from the first
position on through any source; a host that starts near `2 ^ 53` sees the count stand still there.
-/

namespace ScriptScanner

/-- A line and a column. -/
structure Position where
  line : Int
  column : Int
  deriving DecidableEq, Repr, Inhabited

namespace Position

/-- The position of the first unit of a source. -/
def first : Position := ⟨1, 1⟩

/-- The position after one unit. -/
def step (p : Position) (u : CodeUnit) : Position :=
  if u = CodeUnit.lineFeed then ⟨Double.next p.line, 1⟩ else ⟨p.line, Double.next p.column⟩

/-- The position after a text. -/
def past (p : Position) (t : Text) : Position := t.foldl step p

@[simp] theorem past_nil (p : Position) : p.past [] = p := rfl

@[simp] theorem past_cons (p : Position) (u : CodeUnit) (t : Text) :
    p.past (u :: t) = (p.step u).past t := rfl

theorem past_append (p : Position) (t₁ t₂ : Text) :
    p.past (t₁ ++ t₂) = (p.past t₁).past t₂ := by
  simp [past, List.foldl_append]

end Position

/-- A position together with its offset in the source. -/
structure Location extends Position where
  offset : Int
  deriving DecidableEq, Repr, Inhabited

end ScriptScanner
