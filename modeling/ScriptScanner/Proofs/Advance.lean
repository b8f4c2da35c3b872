import Mathlib.Data.List.DropRight
import Mathlib.Logic.Function.Iterate
import ScriptScanner.Proofs.Place
set_option autoImplicit false

/-!
# Moving from any starting point

A host may place a cursor at any offset, also beyond the end of the source, and say any line and
column of it.  From there the cursor moves unit by unit, and stays where it is once nothing is left.
What a move by a count comes to is said here without the single steps: how many units are passed
over and which, and what they make of the line and the column.

Each step counts as doubles are counted.  So a line or a column grows by just as much as is counted
for as long as it stays between `-2 ^ 53` and `2 ^ 53`, and elsewhere it is what the steps make of
it, one after the other.  The steps themselves are counted in the same way: a move by more than
`2 ^ 53` does not end, also where nothing is left to pass over.
-/

namespace ScriptScanner

/-! ## Counting -/

/-- Between the limits on either side of zero, counting adds what is counted. -/
theorem Double.iterate_next_eq_add {n : Int} {k : Nat} (hlow : -(exactLimit : Int) ≤ n)
    (hhigh : n + k ≤ exactLimit) : next^[k] n = n + k := by
  induction k with
  | zero => simp
  | succ k ih =>
    have hstep : next (n + k) = n + k + 1 := roundInt_of_natAbs_le (by omega)
    rw [Function.iterate_succ_apply', ih (by omega), hstep]
    omega

/-- Counted from zero, no double is above the limit. -/
theorem Double.iterate_next_zero_le (k : Nat) : next^[k] 0 ≤ exactLimit := by
  rcases Nat.le_total k exactLimit with hk | hk
  · rw [iterate_next_eq_add (by omega) (by omega)]
    omega
  · obtain ⟨more, rfl⟩ := Nat.exists_eq_add_of_le' hk
    have hreached : next^[exactLimit] 0 = exactLimit := by
      rw [iterate_next_eq_add (by omega) (by omega), Int.zero_add]
    have hstays : next^[more + exactLimit] 0 = exactLimit := by
      rw [Function.iterate_add_apply, hreached, Function.iterate_fixed next_exactLimit]
    exact Int.le_of_eq hstays

/-- The units after the last line feed of a text, or the whole text without one. -/
def Text.lastLine (t : Text) : Text := t.rtakeWhile (· ≠ CodeUnit.lineFeed)

/-- A text with a line feed is cut at the last one. -/
theorem Text.exists_lastLine {t : Text} (h : CodeUnit.lineFeed ∈ t) :
    ∃ front, t = front ++ CodeUnit.lineFeed :: t.lastLine ∧ CodeUnit.lineFeed ∉ t.lastLine := by
  have hne : t.rdropWhile (· ≠ CodeUnit.lineFeed) ≠ [] := by
    intro hnil
    have hall := List.rdropWhile_eq_nil_iff.mp hnil CodeUnit.lineFeed h
    simp at hall
  have hlast : (t.rdropWhile (· ≠ CodeUnit.lineFeed)).getLast hne = CodeUnit.lineFeed := by
    simpa using List.rdropWhile_last_not _ _ hne
  have hfront := List.dropLast_append_getLast hne
  rw [hlast] at hfront
  refine ⟨(t.rdropWhile (· ≠ CodeUnit.lineFeed)).dropLast, ?_, fun hmem => ?_⟩
  · rw [List.append_cons, hfront, lastLine, List.rdropWhile_append_rtakeWhile]
  · have hne := List.mem_rtakeWhile_imp hmem
    simp at hne

theorem Text.length_lastLine_le (t : Text) : t.lastLine.length ≤ t.length :=
  (List.rtakeWhile_suffix _ t).length_le

namespace Position

variable {p : Position} {t : Text}

/-- Every line feed counts one line. -/
theorem line_past_eq (p : Position) (t : Text) :
    (p.past t).line = Double.next^[t.count CodeUnit.lineFeed] p.line := by
  induction t generalizing p with
  | nil => rfl
  | cons u t ih =>
    rw [past_cons, ih]
    by_cases hu : u = CodeUnit.lineFeed
    · rw [hu, List.count_cons_self, Function.iterate_succ_apply, step, if_pos rfl]
    · rw [List.count_cons_of_ne hu, step, if_neg hu]

/-- On one line every unit counts one column. -/
theorem column_past_of_not_mem (h : CodeUnit.lineFeed ∉ t) :
    (p.past t).column = Double.next^[t.length] p.column := by
  induction t generalizing p with
  | nil => rfl
  | cons u t ih =>
    rw [List.mem_cons, not_or] at h
    obtain ⟨hu, ht⟩ := h
    rw [past_cons, ih ht, step, if_neg (Ne.symm hu), List.length_cons, Function.iterate_succ_apply]

/-- A line feed starts the columns anew. -/
theorem column_past_of_mem (h : CodeUnit.lineFeed ∈ t) :
    (p.past t).column = Double.next^[t.lastLine.length] 1 := by
  obtain ⟨front, hcut, hline⟩ := Text.exists_lastLine h
  generalize t.lastLine = line at hcut hline
  rw [hcut, past_append, past_cons, column_past_of_not_mem hline, step, if_pos rfl]

end Position

/-! ## Moving -/

namespace Cursor

variable {source : Source}

theorem advance_eq (c : Cursor source) : c.advance = (c.rest.take 1, c.advanceBy 1) := by
  unfold advance
  split
  · next hrest =>
    have hstay : c = c.advanceBy 1 := by ext <;> simp [advanceBy, hrest]
    rw [← hstay, hrest, List.take_nil]
  · next u rest hrest =>
    have hfirst : [u] = c.rest.take 1 := by rw [hrest, List.take_succ_cons, List.take_zero]
    exact Prod.ext hfirst (by ext <;> simp [advanceBy, hrest])

/-- To move by a count is to pass over so many units one by one. -/
theorem iterate_advance (c : Cursor source) (n : Nat) :
    (fun d => d.advance.2)^[n] c = c.advanceBy n := by
  induction n with
  | zero => exact c.advanceBy_zero.symm
  | succ n ih => rw [Function.iterate_succ_apply', ih, advance_eq, advanceBy_advanceBy]

/-- A counter reaches every count up to the limit, one turn for each unit. -/
theorem forwardFrom_eq_some {n i : Int} (c : Cursor source) (hlow : 0 ≤ i)
    (hn : n ≤ Double.exactLimit) : c.forwardFrom n i = some (c.advanceBy (n - i).toNat) := by
  fun_induction forwardFrom c n i with
  | case1 c i hi hnext ih =>
    have hone : Double.next i = i + 1 := Double.next_eq_add_one (by omega)
    have hturns : 1 + (n - (i + 1)).toNat = (n - i).toNat := by omega
    rw [ih (by omega), hone, advance_eq, advanceBy_advanceBy, hturns]
  | case2 c i hi hstill =>
    have hone : Double.next i = i + 1 := Double.next_eq_add_one (by omega)
    omega
  | case3 c i hi =>
    have hturns : (n - i).toNat = 0 := by omega
    rw [hturns, advanceBy_zero]

/-- A counter never gets above the limit. -/
theorem forwardFrom_eq_none {n i : Int} (c : Cursor source) (hlow : 0 ≤ i)
    (hhigh : i ≤ Double.exactLimit) (hn : Double.exactLimit < n) : c.forwardFrom n i = none := by
  fun_induction forwardFrom c n i with
  | case1 c i hi hnext ih =>
    -- the counter still grows, so it is below the limit
    have hne : i ≠ Double.exactLimit := by
      rintro rfl
      rw [Double.next_exactLimit] at hnext
      omega
    have hone : Double.next i = i + 1 := Double.next_eq_add_one (by omega)
    exact ih (by omega) (by omega)
  | case2 c i hi hstill => rfl
  | case3 c i hi => omega

/-- The text since the cursor before a move is the text passed over. -/
theorem textSince_advanceBy (c : Cursor source) (n : Nat) :
    (c.advanceBy n).textSince c.offset = c.rest.take n := by
  rw [textSince, Text.slice_natCast, advanceBy_offset, Nat.add_sub_cancel_left, ← c.rest_eq,
    ← List.take_eq_take_min]

theorem forward_eq_some {n : Int} (c : Cursor source) (hn : n ≤ Double.exactLimit) :
    c.forward n = some (c.rest.take n.toNat, c.advanceBy n.toNat) := by
  rw [forward, forwardFrom_eq_some c (Int.le_refl 0) hn, Option.map_some, Int.sub_zero,
    textSince_advanceBy]

theorem forward_eq_none {n : Int} (c : Cursor source) (hn : Double.exactLimit < n) :
    c.forward n = none := by
  have hlimit : (0 : Int) ≤ Double.exactLimit := Int.natCast_nonneg _
  rw [forward, forwardFrom_eq_none c (Int.le_refl 0) hlimit hn, Option.map_none]

/-- What a move by a count comes to: the text that is passed over, and the cursor after it. -/
structure Moves (c : Cursor source) (n : Int) (passed : Text) (c' : Cursor source) : Prop where
  iterate_eq : c' = (fun d => d.advance.2)^[n.toNat] c
  length_eq : (passed.length : Int) = min (max n 0) (max 0 (source.text.length - c.offset))
  offset_eq : c'.offset = c.offset + passed.length
  passed_eq : passed = source.text.slice c.offset c'.offset
  line_eq : c'.line = Double.next^[passed.count CodeUnit.lineFeed] c.line
  line_exact : -(Double.exactLimit : Int) ≤ c.line →
    c.line + passed.count CodeUnit.lineFeed ≤ Double.exactLimit →
    c'.line = c.line + passed.count CodeUnit.lineFeed
  column_of_mem : CodeUnit.lineFeed ∈ passed → c'.column = 1 + passed.lastLine.length
  column_of_not_mem : CodeUnit.lineFeed ∉ passed →
    c'.column = Double.next^[passed.length] c.column
  column_exact : CodeUnit.lineFeed ∉ passed → -(Double.exactLimit : Int) ≤ c.column →
    c.column + passed.length ≤ Double.exactLimit → c'.column = c.column + passed.length

theorem moves_advanceBy (c : Cursor source) (n : Int) :
    c.Moves n (c.rest.take n.toNat) (c.advanceBy n.toNat) := by
  have hsource := source.length_lt
  have hrest : c.rest.length = source.text.length - c.offset := by
    rw [c.rest_eq, List.length_drop]
  have hlength : (c.rest.take n.toNat).length = min n.toNat c.rest.length := List.length_take
  have hline : (c.advanceBy n.toNat).line = _ := c.toPosition.line_past_eq (c.rest.take n.toNat)
  have hcolumn : CodeUnit.lineFeed ∉ c.rest.take n.toNat →
      (c.advanceBy n.toNat).column = _ := Position.column_past_of_not_mem (p := c.toPosition)
  refine ⟨(c.iterate_advance _).symm, ?_, ?_, (c.textSince_advanceBy _).symm, hline, ?_, ?_,
    hcolumn, ?_⟩
  · omega
  · rw [advanceBy_offset, hlength]
  · intro hlow hhigh
    rw [hline, Double.iterate_next_eq_add (by omega) (by omega)]
  · intro hmem
    have hle := Text.length_lastLine_le (c.rest.take n.toNat)
    have hafter : (c.advanceBy n.toNat).column = _ :=
      Position.column_past_of_mem (p := c.toPosition) hmem
    rw [hafter, Double.iterate_next_eq_add (by omega) (by omega)]
  · intro hmem hlow hhigh
    rw [hcolumn hmem, Double.iterate_next_eq_add (by omega) (by omega)]

/-- From any starting point, a move by a count up to the limit passes over as many units as are left
of it and returns them, a line feed counts a line and starts the columns anew, and any other unit
counts a column.  Two such moves are one by the sum of their counts.  Above the limit the counter is
below the count after every turn, and the move does not end. -/
theorem forward_closedForm (c : Cursor source) :
    (∀ n : Int, n ≤ Double.exactLimit →
      ∃ passed d, c.forward n = some (passed, d) ∧ c.Moves n passed d) ∧
    (∀ n : Int, Double.exactLimit < n →
      (∀ turns : Nat, Double.next^[turns] 0 < n) ∧ c.forward n = none) ∧
    ∀ m n : Int, 0 ≤ m → 0 ≤ n → m + n ≤ Double.exactLimit →
      ∃ front d back e, c.forward m = some (front, d) ∧ d.forward n = some (back, e) ∧
        c.forward (m + n) = some (front ++ back, e) := by
  refine ⟨fun n hn => ?_, fun n hn => ⟨fun turns => ?_, c.forward_eq_none hn⟩,
    fun m n hm hn hsum => ?_⟩
  · exact ⟨_, _, c.forward_eq_some hn, c.moves_advanceBy n⟩
  · exact Int.lt_of_le_of_lt (Double.iterate_next_zero_le turns) hn
  · have hcount : (m + n).toNat = m.toNat + n.toNat := Int.toNat_add hm hn
    refine ⟨_, _, _, _, c.forward_eq_some (by omega), forward_eq_some _ (by omega), ?_⟩
    rw [c.forward_eq_some hsum, hcount, List.take_add, advanceBy_rest, advanceBy_advanceBy]

/-- Three line feeds. -/
def lineFeeds : Source := ⟨"\n\n\n", by decide +kernel⟩

/-- The last three lines that are counted exactly, passed over at once and in two moves of which the
second one asks for more than is left; and the least count above the limit that a host can ask
for. -/
theorem forward_closedForm_upToLimit :
    ((6 : Int) ≤ Double.exactLimit ∧
      ∃ passed d, (place lineFeeds ⟨9007199254740989, 7⟩ 0).forward 6 = some (passed, d) ∧
        passed = "\n\n\n" ∧ d.line = 9007199254740989 + 3 ∧ d.column = 1) ∧
    ((Double.exactLimit : Int) < 9007199254740994 ∧
      (place lineFeeds ⟨9007199254740989, 7⟩ 0).forward 9007199254740994 = none) ∧
    0 ≤ (1 : Int) ∧ 0 ≤ (5 : Int) ∧ (1 : Int) + 5 ≤ Double.exactLimit ∧
      ∃ front d back e, (place lineFeeds ⟨9007199254740989, 7⟩ 0).forward 1 = some (front, d) ∧
        d.forward 5 = some (back, e) ∧
        (place lineFeeds ⟨9007199254740989, 7⟩ 0).forward (1 + 5) = some (front ++ back, e) := by
  have hlow : (6 : Int) ≤ Double.exactLimit := by decide +kernel
  have hhigh : (Double.exactLimit : Int) < 9007199254740994 := by decide +kernel
  obtain ⟨hmoves, hunending, hsum⟩ := forward_closedForm (place lineFeeds ⟨9007199254740989, 7⟩ 0)
  obtain ⟨passed, d, hforward, h⟩ := hmoves 6 hlow
  have hlength : passed.length = 3 := by
    have hleft := h.length_eq
    have hunits : lineFeeds.text.length = 3 := by decide +kernel
    simp only [place, hunits] at hleft
    omega
  have hpassed : passed = "\n\n\n" := by
    rw [h.passed_eq, h.offset_eq, hlength]
    decide +kernel
  subst hpassed
  refine ⟨⟨hlow, _, d, hforward, rfl, ?_, ?_⟩, ⟨hhigh, (hunending _ hhigh).2⟩, by decide, by decide,
    hlow, hsum 1 5 (by decide) (by decide) hlow⟩
  · exact h.line_exact (by decide +kernel) (by decide +kernel)
  · exact h.column_of_mem (by decide +kernel)

/-- From the last line but one the count of lines stands still after the first of three line feeds,
and a count of units just above the limit is never reached. -/
theorem forward_lineFeeds_standsStill :
    (∃ passed d, (place lineFeeds ⟨9007199254740991, 1⟩ 0).forward 3 = some (passed, d) ∧
      d.line ≠ 9007199254740991 + passed.count CodeUnit.lineFeed) ∧
    (start lineFeeds).forward 9007199254740994 = none := by
  refine ⟨⟨_, _, forward_eq_some _ (by decide +kernel), ?_⟩, forward_eq_none _ (by decide +kernel)⟩
  decide +kernel

end Cursor

end ScriptScanner
