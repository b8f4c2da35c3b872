import ScriptScanner.Location
import ScriptScanner.Source
set_option autoImplicit false

/-!
# Cursors

A cursor is an offset in a source together with its position and with the rest of the source from
there on.  The rest is determined by the offset; carrying it makes a scan linear in its source.
An offset may lie beyond the end, where nothing is left to read.

A cursor only moves forward: the offset grows by the number of units passed over, and the position
is the one after those units.  A scan moves by `advanceBy`, since it knows how many units it has
read.  A host moves by `advance` and `forward`, unit by unit, and the count it asks for is any whole
number, also one that counting unit by unit does not reach.
-/

namespace ScriptScanner

/-- A place in a source. -/
structure Cursor (source : Source) extends Position where
  offset : Nat
  rest : Text := source.text.drop offset
  rest_eq : rest = source.text.drop offset := by rfl
  deriving DecidableEq, Repr

namespace Cursor

variable {source : Source}

/-- The cursor at an offset, at whatever position the host says that is. -/
def place (source : Source) (position : Position) (offset : Nat) : Cursor source :=
  { toPosition := position, offset }

/-- The beginning of a source. -/
def start (source : Source) : Cursor source := place source Position.first 0

instance : Inhabited (Cursor source) := ⟨start source⟩

/-- Where the cursor stands. -/
def location (c : Cursor source) : Location := { toPosition := c.toPosition, offset := c.offset }

/-- Nothing is left to read. -/
def isAtEnd (c : Cursor source) : Bool := c.rest.isEmpty

/-- Passes over `n` units, or over what is left if that is less. -/
def advanceBy (c : Cursor source) (n : Nat) : Cursor source :=
  let passed := c.rest.take n
  { toPosition := c.toPosition.past passed
    offset := c.offset + passed.length
    rest := c.rest.drop n
    rest_eq := by
      have h := c.rest_eq
      simp only [passed, List.length_take, h, List.drop_drop, List.length_drop]
      rcases Nat.le_total n (source.text.length - c.offset) with hn | hn
      · rw [Nat.min_eq_left hn]
      · rw [Nat.min_eq_right hn, List.drop_eq_nil_of_le (by omega),
          List.drop_eq_nil_of_le (by omega)] }

/-! ## Looking -/

/-- The unit at a distance from the cursor, as a text; empty outside the source. -/
def peek (c : Cursor source) (distance : Int) : Text :=
  (source.text.unit? (c.offset + distance)).toList

/-- The text of a length from the cursor on. -/
def peekText (c : Cursor source) (length : Int) : Text :=
  source.text.slice c.offset (c.offset + length)

/-- The text from an offset up to the cursor. -/
def textSince (c : Cursor source) (offset : Int) : Text :=
  source.text.slice offset c.offset

/-! ## Moving unit by unit -/

/-- Passes over the unit at the cursor and returns it; at the end there is none, and the cursor
stays. -/
def advance (c : Cursor source) : Text × Cursor source :=
  match h : c.rest with
  | [] => ([], c)
  | u :: rest =>
      ([u],
        { toPosition := c.toPosition.step u
          offset := c.offset + 1
          rest
          rest_eq := by
            rw [List.drop_add_one_eq_tail_drop, ← c.rest_eq, h, List.tail_cons] })

/-- Passes over one unit a turn while the counter `i` is below the count.  The counter is a double;
where it stands still below the count it stays there turn after turn, and the move does not end. -/
def forwardFrom (c : Cursor source) (n i : Int) : Option (Cursor source) :=
  if i < n then
    if i < Double.next i then c.advance.2.forwardFrom n (Double.next i) else none
  else some c
termination_by (n - i).toNat

/-- Moves by a count and returns the text passed over, unless the move does not end; a count below
zero passes over nothing. -/
def forward (c : Cursor source) (n : Int) : Option (Text × Cursor source) :=
  (c.forwardFrom n 0).map fun d => (d.textSince c.offset, d)

/-! ## Basic laws -/

/-- A cursor is its offset and its position. -/
@[ext] theorem ext {c d : Cursor source} (ho : c.offset = d.offset)
    (hl : c.line = d.line) (hc : c.column = d.column) : c = d := by
  obtain ⟨⟨l, k⟩, o, r, h⟩ := c
  obtain ⟨⟨l', k'⟩, o', r', h'⟩ := d
  simp only at ho hl hc
  subst ho hl hc
  simp [h, h']

@[simp] theorem advanceBy_offset (c : Cursor source) (n : Nat) :
    (c.advanceBy n).offset = c.offset + min n c.rest.length := by
  simp [advanceBy]

@[simp] theorem advanceBy_rest (c : Cursor source) (n : Nat) :
    (c.advanceBy n).rest = c.rest.drop n := rfl

@[simp] theorem advanceBy_toPosition (c : Cursor source) (n : Nat) :
    (c.advanceBy n).toPosition = c.toPosition.past (c.rest.take n) := rfl

@[simp] theorem advanceBy_zero (c : Cursor source) : c.advanceBy 0 = c := by
  ext <;> simp [advanceBy]

/-- Two moves are one. -/
theorem advanceBy_advanceBy (c : Cursor source) (m n : Nat) :
    (c.advanceBy m).advanceBy n = c.advanceBy (m + n) := by
  have hp : ((c.advanceBy m).advanceBy n).toPosition = (c.advanceBy (m + n)).toPosition := by
    simp [← Position.past_append, ← List.take_add]
  apply Cursor.ext
  · simp; omega
  · exact congrArg Position.line hp
  · exact congrArg Position.column hp

end Cursor

end ScriptScanner
