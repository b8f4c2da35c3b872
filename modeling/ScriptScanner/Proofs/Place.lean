import Mathlib.Data.List.TakeWhile
import ScriptScanner.Cursor
set_option autoImplicit false

/-!
# Places in a source

The place of an offset is said here without a cursor: its line is one more than the line feeds
before it, and its column is one more than the units since the last of them.  A cursor that starts
at the beginning of a source and only ever moves by `advanceBy` stands at the place of its offset,
because a source is short enough for its lines and columns to be counted exactly.
-/

namespace ScriptScanner

namespace Text

/-- The line of an offset: one, and one for each line feed before it. -/
def lineAt (t : Text) (offset : Nat) : Int := 1 + ((t.take offset).count CodeUnit.lineFeed : Nat)

/-- The column of an offset: one, and one for each unit between it and the last line feed before it.
-/
def columnAt (t : Text) (offset : Nat) : Int :=
  1 + (((t.take offset).reverse.takeWhile fun u => u ≠ CodeUnit.lineFeed).length : Nat)

/-- Without a line feed before it, an offset is one less than its column. -/
theorem columnAt_of_not_mem {t : Text} {offset : Nat} (hle : offset ≤ t.length)
    (h : CodeUnit.lineFeed ∉ t.take offset) : t.columnAt offset = offset + 1 := by
  have hall : (t.take offset).reverse.takeWhile (fun u => u ≠ CodeUnit.lineFeed) =
      (t.take offset).reverse := by
    rw [List.takeWhile_eq_self_iff]
    intro u hu
    rw [List.mem_reverse] at hu
    exact decide_eq_true fun heq => h (heq ▸ hu)
  rw [columnAt, hall, List.length_reverse, List.length_take, Nat.min_eq_left hle]
  omega

/-- Lines do not decrease along a text. -/
theorem lineAt_mono (t : Text) {i j : Nat} (h : i ≤ j) : t.lineAt i ≤ t.lineAt j := by
  have hprefix : (t.take i).Sublist (t.take j) := (List.take_prefix_take_left h).sublist
  have hcount := hprefix.count_le CodeUnit.lineFeed
  rw [lineAt, lineAt]
  omega

/-- Beyond a line feed the line is the next one. -/
theorem lineAt_succ_of_lineFeed {t : Text} {i : Nat} (h : t[i]? = some CodeUnit.lineFeed) :
    t.lineAt (i + 1) = t.lineAt i + 1 := by
  have hstep : t.take (i + 1) = t.take i ++ [CodeUnit.lineFeed] := by
    rw [List.take_add_one, h, Option.toList_some]
  rw [lineAt, lineAt, hstep, List.count_append, List.count_singleton_self]
  omega

/-- Two offsets are on different lines if and only if there is a line feed between them. -/
theorem lineAt_ne_iff (t : Text) {i j : Nat} (h : i ≤ j) :
    t.lineAt j ≠ t.lineAt i ↔ CodeUnit.lineFeed ∈ t.slice i j := by
  have hcut : t.take j = t.take i ++ (t.drop i).take (j - i) := by
    rw [← List.take_add, Nat.add_sub_cancel' h]
  rw [slice_natCast, ← List.count_pos_iff, lineAt, lineAt, hcut, List.count_append]
  omega

end Text

/-- The place of an offset. -/
def Source.locationAt (source : Source) (offset : Nat) : Location :=
  { line := source.text.lineAt offset, column := source.text.columnAt offset, offset }

/-- The location is the place of an offset of the source. -/
def Location.IsPlaceOf (l : Location) (source : Source) : Prop :=
  ∃ offset ≤ source.text.length, l = source.locationAt offset

/-! ## Counting from the beginning -/

/-- Counting the units of a text from the first position, said of the text read backward. -/
theorem Position.past_first_reverse {t : Text} (h : t.length < Double.exactLimit) :
    Position.first.past t.reverse =
      ⟨1 + (t.count CodeUnit.lineFeed : Nat),
        1 + ((t.takeWhile fun u => u ≠ CodeUnit.lineFeed).length : Nat)⟩ := by
  induction t with
  | nil => rfl
  | cons u t ih =>
    rw [List.length_cons] at h
    have hcount : t.count CodeUnit.lineFeed ≤ t.length := List.count_le_length
    have hlast := (List.takeWhile_sublist (l := t) fun u => u ≠ CodeUnit.lineFeed).length_le
    rw [List.reverse_cons, Position.past_append, ih (by omega), Position.past_cons,
      Position.past_nil, Position.step]
    split
    · next hu =>
      have hline : Double.next (1 + (t.count CodeUnit.lineFeed : Nat)) =
          1 + (t.count CodeUnit.lineFeed : Nat) + 1 := Double.next_eq_add_one (by omega)
      rw [hline, hu, List.count_cons_self, List.takeWhile_cons_of_neg (by simp)]
      simp only [List.length_nil, Position.mk.injEq]
      omega
    · next hu =>
      have hcolumn :
          Double.next (1 + ((t.takeWhile fun u => u ≠ CodeUnit.lineFeed).length : Nat)) =
            1 + ((t.takeWhile fun u => u ≠ CodeUnit.lineFeed).length : Nat) + 1 :=
        Double.next_eq_add_one (by omega)
      rw [hcolumn, List.count_cons_of_ne hu, List.takeWhile_cons_of_pos (by simpa using hu),
        List.length_cons]
      simp only [Position.mk.injEq, true_and]
      omega

theorem Source.past_first_take (source : Source) (offset : Nat) :
    Position.first.past (source.text.take offset) = (source.locationAt offset).toPosition := by
  have hlen : (source.text.take offset).reverse.length < Double.exactLimit := by
    rw [List.length_reverse]
    exact Nat.lt_of_le_of_lt (List.length_take_le' _ _) source.length_lt
  have hpast := Position.past_first_reverse hlen
  rw [List.reverse_reverse, List.count_reverse] at hpast
  exact hpast

/-! ## Cursors in place -/

namespace Cursor

variable {source : Source} {c : Cursor source}

/-- What is left to read begins with the unit at the offset. -/
theorem head?_rest (c : Cursor source) : c.rest.head? = source.text[c.offset]? := by
  rw [c.rest_eq, List.head?_drop]

/-- The cursor stands in the source, at the place of its offset. -/
structure InPlace (c : Cursor source) : Prop where
  offset_le : c.offset ≤ source.text.length
  position_eq : c.toPosition = (source.locationAt c.offset).toPosition

theorem inPlace_start (source : Source) : (start source).InPlace :=
  ⟨Nat.zero_le _, (source.past_first_take 0)⟩

/-- What is left to read lies between the cursor and the end. -/
theorem InPlace.offset_add_length_rest (h : c.InPlace) :
    c.offset + c.rest.length = source.text.length := by
  have hle := h.offset_le
  rw [c.rest_eq, List.length_drop]
  omega

/-- Moving keeps a cursor in place. -/
theorem InPlace.advanceBy (h : c.InPlace) (n : Nat) : (c.advanceBy n).InPlace := by
  have hend := h.offset_add_length_rest
  have htake : source.text.take c.offset ++ c.rest.take n =
      source.text.take (c.offset + min n c.rest.length) := by
    rw [List.take_add, ← c.rest_eq, ← List.take_eq_take_min]
  refine ⟨?_, ?_⟩
  · rw [advanceBy_offset]
    omega
  · rw [advanceBy_toPosition, h.position_eq, ← source.past_first_take, ← Position.past_append,
      htake, source.past_first_take, advanceBy_offset]

theorem InPlace.location_eq (h : c.InPlace) : c.location = source.locationAt c.offset := by
  rw [location, h.position_eq]
  rfl

/-- There is a cursor in place at every offset of the source. -/
theorem exists_inPlace {offset : Nat} (h : offset ≤ source.text.length) :
    ∃ c : Cursor source, c.InPlace ∧ c.offset = offset := by
  refine ⟨(start source).advanceBy offset, (inPlace_start source).advanceBy offset, ?_⟩
  have hrest : (start source).rest = source.text := rfl
  rw [advanceBy_offset, hrest, Nat.min_eq_left h]
  exact Nat.zero_add offset

/-- Cursors in place are told apart by their offsets. -/
theorem InPlace.eq_of_offset_eq {d : Cursor source} (h : c.InPlace) (hd : d.InPlace)
    (ho : c.offset = d.offset) : c = d := by
  have hposition : c.toPosition = d.toPosition := by rw [h.position_eq, hd.position_eq, ho]
  exact Cursor.ext ho (congrArg Position.line hposition) (congrArg Position.column hposition)

theorem InPlace.isPlaceOf_location (h : c.InPlace) : c.location.IsPlaceOf source :=
  ⟨c.offset, h.offset_le, h.location_eq⟩

end Cursor

end ScriptScanner
