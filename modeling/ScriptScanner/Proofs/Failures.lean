import ScriptScanner.Proofs.Lexeme.Broken
import ScriptScanner.Proofs.Progress
set_option autoImplicit false

/-!
# Where a failed scan leaves the cursor

A scan that fails reports one of the seven faults of a source, and both the place that it reports
and the place where it leaves the cursor are definite for each of them.  A host that goes on after a
failure goes on from there.  Only a character that begins nothing is not passed over, so whoever
scans again reports it again.
-/

namespace ScriptScanner.Cursor

variable {source : Source} {c c' : Cursor source} {flags : Flags} {m : LocatedFault}

/-- A scan that fails stops in the text from where its trivia or its lexeme begins. -/
theorem exists_stopsAt_of_next_eq_error (h : c.next flags = (.error m, c')) :
    ∃ (d : Cursor source) (site n : Nat), m.fault.StopsAt d.rest flags.operand site n ∧
      m.location = (d.advanceBy site).location ∧ c' = d.advanceBy n := by
  obtain ⟨site, n, hbroken, hlocation, rfl⟩ |
    ⟨comments, gap, site, n, htrivia, hbroken, hlocation, rfl⟩ := exists_of_next_eq_error h
  · exact ⟨c, site, n, Trivia.stopsAt_of_read_eq_broken hbroken, hlocation, rfl⟩
  · obtain ⟨_, _, _, hstop⟩ := Trivia.isGap_of_read_eq_found htrivia
    have hblank : ∀ u ∈ (c.rest.drop gap).head?, u ∉ Trivia.inlineBlanks :=
      fun u hu hspace => hstop u hu (.inl hspace)
    exact ⟨c.advanceBy gap, site, n, Lexeme.stopsAt_of_read_eq_broken hblank hbroken, hlocation,
      rfl⟩

/-- What is said of the text ahead holds of the source, at the offsets of the cursors there. -/
theorem stopsAt_offset {fault : Fault} {operand : Bool} {site n : Nat}
    (h : fault.StopsAt c.rest operand site n) :
    fault.StopsAt source.text operand (c.advanceBy site).offset (c.advanceBy n).offset := by
  obtain ⟨hsite, hn, _⟩ := h.bounds
  rw [advanceBy_offset, advanceBy_offset, Nat.min_eq_left (Nat.le_trans hsite hn),
    Nat.min_eq_left hn]
  rw [c.rest_eq] at h
  exact h.of_drop

/-- At a unit that begins nothing every scan fails, and leaves the cursor where it is. -/
theorem next_of_beginsNothing {u : CodeUnit} {rest : Text} (hrest : c.rest = u :: rest)
    (hu : u.BeginsNothing) (flags : Flags) :
    c.next flags =
      (.error ⟨.illegalCharacter (Text.firstCharacter c.rest).quoted, c.location⟩, c) := by
  have htrivia : Trivia.read flags.newlines c.rest = .found [] 0 := by
    rw [hrest, hu.read_trivia]
  have hlexeme : Lexeme.read flags.operand (c.rest.drop 0) =
      .broken (.illegalCharacter (Text.firstCharacter c.rest).quoted) 0 0 := by
    rw [List.drop_zero, hrest, hu.read_lexeme]
  rw [next_of_broken htrivia hlexeme, advanceBy_zero, advanceBy_zero]

/-- Whoever scans again after an illegal character has the same failure again. -/
theorem next_afterScans_of_illegalCharacter (h : c.next flags = (.error m, c'))
    (hcode : m.fault.code = .illegalCharacter) (scans : List Flags) (flags' : Flags) :
    (c'.afterScans scans).next flags' = (.error m, c') := by
  obtain ⟨fault, location⟩ := m
  obtain ⟨d, site, n, hstops, hlocation, rfl⟩ := exists_stopsAt_of_next_eq_error h
  cases fault with
  | illegalCharacter quoted =>
    obtain ⟨rfl, hquoted, u, hunit, hu⟩ := hstops
    obtain ⟨rest, hrest⟩ : ∃ rest, (d.advanceBy n).rest = u :: rest := by
      rw [advanceBy_rest]
      rw [← List.head?_drop] at hunit
      exact List.head?_eq_some_iff.mp hunit
    have hagain := next_of_beginsNothing hrest hu
    rw [advanceBy_rest, ← hquoted, ← hlocation] at hagain
    rw [afterScans_eq (fun flags => by rw [hagain]) scans, hagain]
  | _ => cases hcode

/-- A scan that fails does so with a diagnostic of the lexer family.  The place that it reports and
the place where it leaves the cursor are those of its fault, and an illegal character is reported
again by every later scan. -/
theorem stopsAt_of_next_eq_error (h : c.next flags = (.error m, c')) :
    (∀ filename, (m.diagnose filename).family = some .lexer) ∧
      (∃ site : Nat, m.location.offset = site ∧
        m.fault.StopsAt source.text flags.operand site c'.offset) ∧
      (m.fault.code = .illegalCharacter →
        ∀ scans flags', (c'.afterScans scans).next flags' = (.error m, c')) := by
  obtain ⟨d, site, n, hstops, hlocation, hcursor⟩ := exists_stopsAt_of_next_eq_error h
  refine ⟨fun filename => congrArg some (isLexical_of_next_eq_error h), ?_,
    next_afterScans_of_illegalCharacter h⟩
  refine ⟨(d.advanceBy site).offset, by rw [hlocation]; rfl, ?_⟩
  rw [hcursor]
  exact stopsAt_offset hstops

/-- A name and a hash sign. -/
def hashAfterName : Source := ⟨"a # b", by decide +kernel⟩

theorem stopsAt_of_next_eq_error_hashAfterName :
    ((start hashAfterName).next ⟨false, true⟩).2.next ⟨true, false⟩ =
        (.error ⟨.illegalCharacter "\"#\"", ⟨⟨1, 3⟩, 2⟩⟩, ((start hashAfterName).advanceBy 2)) ∧
      Fault.StopsAt hashAfterName.text false 2 2 (.illegalCharacter "\"#\"") ∧
      ((start hashAfterName).advanceBy 2).next ⟨false, true⟩ =
        (.error ⟨.illegalCharacter "\"#\"", ⟨⟨1, 3⟩, 2⟩⟩, ((start hashAfterName).advanceBy 2)) := by
  have hfails : ((start hashAfterName).next ⟨false, true⟩).2.next ⟨true, false⟩ =
      (.error ⟨.illegalCharacter "\"#\"", ⟨⟨1, 3⟩, 2⟩⟩, ((start hashAfterName).advanceBy 2)) := by
    decide +kernel
  obtain ⟨_, ⟨site, hsite, hstops⟩, hagain⟩ := stopsAt_of_next_eq_error hfails
  obtain rfl : site = 2 := Int.ofNat_inj.mp hsite.symm
  exact ⟨hfails, hstops, hagain rfl [] ⟨false, true⟩⟩

end ScriptScanner.Cursor
