import ScriptScanner.Proofs.Feed.Invariant
import ScriptScanner.Proofs.Scan
set_option autoImplicit false

/-!
# The history of a run

Whatever a parser asks for, the entries of a tape cover ranges of the source, one after the other,
and the cursor stands behind all of them.  The line that an entry remembers is the line of the place
where its token ends.
-/

namespace ScriptScanner

variable {source : Source}

/-- The entry was scanned from the source: its token covers a range, and its line is the one after
that range. -/
def Entry.IsFrom (e : Entry) (source : Source) : Prop :=
  ∃ start stop, e.token.Covers source start stop ∧ e.lineAfter = source.text.lineAt stop

/-- The entries cover ranges of the source in order, and the cursor is in place after the last. -/
structure Cursor.Follows (c : Cursor source) (entries : List Entry) : Prop where
  inPlace : c.InPlace
  isFrom : ∀ e ∈ entries, e.IsFrom source
  ordered : entries.Pairwise fun e f => e.token.stop ≤ f.token.start
  stop_le : ∀ e ∈ entries, e.token.stop ≤ c.offset

theorem Cursor.follows_start (source : Source) : (Cursor.start source).Follows [] := by
  refine ⟨Cursor.inPlace_start source, ?_, .nil, ?_⟩
  · intro e he
    cases he
  · intro e he
    cases he

namespace Cursor.Follows

variable {c c' : Cursor source} {flags : Flags} {entries : List Entry}

/-- A scan leaves the entries behind the cursor. -/
theorem of_next_eq {outcome : Except LocatedFault Token} (h : c.Follows entries)
    (hnext : c.next flags = (outcome, c')) : c'.Follows entries := by
  obtain ⟨hplace, hoffset⟩ := h.inPlace.of_next_eq hnext
  refine ⟨hplace, h.isFrom, h.ordered, fun e he => ?_⟩
  exact Int.le_trans (h.stop_le e he) (Int.ofNat_le.mpr hoffset)

/-- The entry of a scan comes after all others. -/
theorem scanned {t : Token} (h : c.Follows entries) (hnext : c.next flags = (.ok t, c')) :
    c'.Follows (entries ++ [⟨t, c'.line⟩]) := by
  have hafter := h.of_next_eq hnext
  obtain ⟨start, hle, hcovers, -⟩ := h.inPlace.exists_covers_of_next_eq_ok hnext
  have hline : c'.line = source.text.lineAt c'.offset :=
    congrArg Position.line hafter.inPlace.position_eq
  refine ⟨hafter.inPlace, ?_, ?_, ?_⟩
  · intro e he
    rcases List.mem_append.mp he with he | he
    · exact h.isFrom e he
    · cases List.mem_singleton.mp he
      exact ⟨start, c'.offset, hcovers, hline⟩
  · refine List.pairwise_append.mpr ⟨h.ordered, List.pairwise_singleton _ _, ?_⟩
    intro e he f hf
    cases List.mem_singleton.mp hf
    rw [hcovers.start_eq]
    exact Int.le_trans (h.stop_le e he) (Int.ofNat_le.mpr hle)
  · intro e he
    rcases List.mem_append.mp he with he | he
    · exact hafter.stop_le e he
    · cases List.mem_singleton.mp he
      exact Int.le_of_eq hcovers.stop_eq

theorem forgotten {kept : List Entry} (h : c.Follows entries) (hkept : kept.Sublist entries) :
    c.Follows kept :=
  ⟨h.inPlace, fun e he => h.isFrom e (hkept.subset he), h.ordered.sublist hkept,
    fun e he => h.stop_le e (hkept.subset he)⟩

end Cursor.Follows

/-- The histories of a run are in order, and whatever is reported is reported at a place. -/
theorem Tape.invariant_follows (source : Source) :
    Tape.Invariant (@Cursor.Follows source) (Location.IsPlaceOf · source) where
  start := Cursor.follows_start source
  scanned h hnext := h.scanned hnext
  failed h hnext := ⟨h.of_next_eq hnext, h.inPlace.isPlaceOf_of_next_eq_error hnext⟩
  forgotten h hkept := h.forgotten hkept
  located_cursor h := h.inPlace.isPlaceOf_location
  located_entry h he := by
    obtain ⟨_, _, hcovers, _⟩ := h.isFrom _ he
    exact hcovers.isPlaceOf_location

end ScriptScanner
