import Mathlib.Order.Bounds.Basic
import ScriptScanner.Proofs.Lexeme.Broken
set_option autoImplicit false

/-!
# Where the trivia end

The trivia at the front of a text are passed over up to the first place where neither a blank nor a
comment stands, and they are passed over at all exactly if every block comment on the way is closed.
Both are said here of the text alone: a place is reached if a gap is before it.
-/

namespace ScriptScanner

namespace Trivia

/-- The mark that opens a block comment. -/
def blockMark : Text := [CodeUnit.slash, CodeUnit.star]

/-- The mark that opens a line comment. -/
def lineMark : Text := [CodeUnit.slash, CodeUnit.slash]

/-- The trivia of the text lead up to a block comment at the offset. -/
structure MeetsBlock (newlines : Bool) (t : Text) (k : Nat) : Prop where
  le_length : k ≤ t.length
  gap : ∃ comments, IsGap newlines (t.drop k) comments (t.take k)
  opens : blockMark <+: t.drop k

/-- A closing mark begins at least two units behind the front, so it has no unit in common with an
opening mark there. -/
def Closes (t : Text) : Prop := ∃ i, 2 ≤ i ∧ closingMark <+: t.drop i

/-- Neither a blank nor a comment stands at the front of the text, or the text is empty. -/
structure Significant (newlines : Bool) (t : Text) : Prop where
  not_blank : ∀ u ∈ t.head?, ¬ Blank newlines u
  not_block : ¬ blockMark <+: t
  not_line : ¬ lineMark <+: t

variable {newlines : Bool} {t : Text}

/-! ## What stands where a comment may begin -/

theorem comment_eq_absent_iff_not_isPrefix :
    comment t = .absent ↔ ¬ blockMark <+: t ∧ ¬ lineMark <+: t := by
  rw [comment_eq_absent_iff]
  rcases t with _ | ⟨u, _ | ⟨v, rest⟩⟩
  · simp [pairAhead, blockMark, lineMark]
  · simp [pairAhead, blockMark, lineMark]
  · simp only [pairAhead, blockMark, lineMark, List.cons_prefix_cons, List.nil_prefix, and_true,
      Bool.and_eq_false_iff, Bool.or_eq_false_iff, decide_eq_false_iff_not, not_and,
      eq_comm (a := CodeUnit.slash), eq_comm (a := CodeUnit.star)]
    tauto

theorem closes_of_closingMark?_eq_some {n : Nat} {rest : Text}
    (h : closingMark? 0 rest = some n) : Closes (CodeUnit.slash :: CodeUnit.star :: rest) := by
  obtain ⟨body, after, rfl, -, -⟩ := exists_of_closingMark?_eq_some h
  refine ⟨body.length + 2, Nat.le_add_left 2 _, ?_⟩
  rw [List.drop_succ_cons, List.drop_succ_cons, List.append_assoc, List.drop_left]
  exact List.prefix_append closingMark after

theorem comment_eq_unclosed_iff : comment t = .unclosed ↔ blockMark <+: t ∧ ¬ Closes t := by
  constructor
  · intro h
    obtain ⟨rest, rfl, hopen⟩ := exists_of_comment_eq_unclosed h
    refine ⟨List.prefix_append blockMark rest, ?_⟩
    rintro ⟨i, hi, hclosing⟩
    obtain ⟨j, rfl⟩ := Nat.exists_eq_add_of_le' hi
    exact hopen j hclosing
  · rintro ⟨⟨rest, rfl⟩, hopen⟩
    change comment (CodeUnit.slash :: CodeUnit.star :: rest) = .unclosed
    rw [comment, if_pos rfl, if_pos rfl]
    cases hmark : closingMark? 0 rest with
    | none => rfl
    | some n => exact absurd (closes_of_closingMark?_eq_some hmark) hopen

/-! ## Reading -/

/-- What stands behind a gap is read after the gap. -/
theorem read_of_isGap_take {comments : List Text} {k : Nat} (hk : k ≤ t.length)
    (h : IsGap newlines (t.drop k) comments (t.take k)) :
    read newlines t = resume comments k (read newlines (t.drop k)) := by
  have hfrom : readFrom newlines [] 0 (t.take k ++ t.drop k) =
      readFrom newlines (comments.reverse ++ []) (0 + (t.take k).length) (t.drop k) :=
    readFrom_of_isGap h
  rw [List.take_append_drop, readFrom_eq_resume _ (comments.reverse ++ []),
    List.length_take_of_le hk, List.append_nil, List.reverse_reverse, Nat.zero_add] at hfrom
  exact hfrom

/-- The trivia are found exactly if they are a gap before significant text. -/
theorem read_eq_found_iff {comments : List Text} {n : Nat} :
    read newlines t = .found comments n ↔
      n ≤ t.length ∧ IsGap newlines (t.drop n) comments (t.take n) ∧
        Significant newlines (t.drop n) := by
  constructor
  · intro h
    obtain ⟨hle, hgap, habsent, hstop⟩ := isGap_of_read_eq_found h
    obtain ⟨hblock, hline⟩ := comment_eq_absent_iff_not_isPrefix.mp habsent
    exact ⟨hle, hgap, hstop, hblock, hline⟩
  · rintro ⟨hle, hgap, hstop, hblock, hline⟩
    have hrest : read newlines (t.drop n) = .found [] 0 :=
      readFrom_of_stop (comment_eq_absent_iff_not_isPrefix.mpr ⟨hblock, hline⟩) hstop
    rw [read_of_isGap_take hle hgap, hrest, resume, List.append_nil, Nat.add_zero]

/-- The trivia are broken exactly if they lead up to a block comment that is not closed. -/
theorem read_eq_broken_iff {fault : Fault} {site n : Nat} :
    read newlines t = .broken fault site n ↔
      MeetsBlock newlines t site ∧ ¬ Closes (t.drop site) ∧ fault = .unterminatedComment ∧
        n = t.length := by
  constructor
  · intro h
    obtain ⟨comments, gap, after, rfl, hgap, hunclosed, rfl, rfl, rfl⟩ :=
      isGap_of_readFrom_eq_broken h
    obtain ⟨hopens, hopen⟩ := comment_eq_unclosed_iff.mp hunclosed
    have hdrop : (gap ++ after).drop (0 + gap.length) = after := by
      rw [Nat.zero_add, List.drop_left]
    have htake : (gap ++ after).take (0 + gap.length) = gap := by
      rw [Nat.zero_add, List.take_left]
    refine ⟨⟨?_, ⟨comments, ?_⟩, ?_⟩, ?_, rfl, Nat.zero_add _⟩
    · rw [List.length_append]
      omega
    · rwa [hdrop, htake]
    · rwa [hdrop]
    · rwa [hdrop]
  · rintro ⟨⟨hle, ⟨comments, hgap⟩, hopens⟩, hopen, rfl, rfl⟩
    have hrest : read newlines (t.drop site) =
        .broken .unterminatedComment 0 (0 + (t.drop site).length) :=
      readFrom_of_unclosed (comment_eq_unclosed_iff.mpr ⟨hopens, hopen⟩)
    rw [read_of_isGap_take hle hgap, hrest, resume, List.length_drop]
    congr 1
    omega

/-- There is at most one block comment on the way that is not closed, since nothing is read behind
it. -/
theorem MeetsBlock.eq_of_not_closes {k k' : Nat} (hk : MeetsBlock newlines t k)
    (hopen : ¬ Closes (t.drop k)) (hk' : MeetsBlock newlines t k')
    (hopen' : ¬ Closes (t.drop k')) : k = k' := by
  have h := read_eq_broken_iff.mpr ⟨hk, hopen, rfl, rfl⟩
  rw [read_eq_broken_iff.mpr ⟨hk', hopen', rfl, rfl⟩] at h
  cases h
  rfl

/-- Reading fails at the first block comment on the way that is not closed. -/
theorem isLeast_of_read_eq_broken {fault : Fault} {site n : Nat}
    (h : read newlines t = .broken fault site n) :
    IsLeast {k | MeetsBlock newlines t k ∧ ¬ Closes (t.drop k)} site := by
  obtain ⟨hmeets, hopen, -, -⟩ := read_eq_broken_iff.mp h
  refine ⟨⟨hmeets, hopen⟩, ?_⟩
  rintro k ⟨hk, hk'⟩
  exact Nat.le_of_eq (hmeets.eq_of_not_closes hopen hk hk')

end Trivia

/-! ## Skipping -/

namespace Cursor

variable {source : Source} {c c' : Cursor source} {newlines : Bool} {comments : List Text}

/-- From the first cursor to the second there is a gap with the comments, and at the second one
significant text, or the end of the source. -/
structure SkipsTo (c : Cursor source) (newlines : Bool) (comments : List Text)
    (c' : Cursor source) : Prop where
  passed : ∃ n ≤ c.rest.length, c' = c.advanceBy n ∧
    Trivia.IsGap newlines c'.rest comments (c.rest.take n)
  significant : Trivia.Significant newlines c'.rest

theorem skipTrivia_eq_ok_iff_skipsTo :
    c.skipTrivia newlines = (.ok comments, c') ↔ c.SkipsTo newlines comments c' := by
  rw [skipTrivia_eq_ok_iff]
  constructor
  · rintro ⟨n, h, rfl⟩
    obtain ⟨hle, hgap, hstop⟩ := Trivia.read_eq_found_iff.mp h
    exact ⟨⟨n, hle, rfl, hgap⟩, hstop⟩
  · rintro ⟨⟨n, hle, rfl, hgap⟩, hstop⟩
    exact ⟨n, Trivia.read_eq_found_iff.mpr ⟨hle, hgap, hstop⟩, rfl⟩

/-- At significant text, nothing is skipped. -/
theorem SkipsTo.refl_of_significant (h : Trivia.Significant newlines c.rest) :
    c.SkipsTo newlines [] c := by
  refine ⟨⟨0, Nat.zero_le _, (advanceBy_zero c).symm, ?_⟩, h⟩
  rw [List.take_zero]
  exact .blanks nofun

/-- Skipping stops exactly at significant text: it succeeds exactly if every block comment on the
way is closed, it then passes over the gap and returns the comments in it, and once more it skips
nothing.  Otherwise it reports the first block comment on the way that is not closed. -/
theorem skipTrivia_stops_at_significant (c : Cursor source) (newlines : Bool) :
    ((∃ comments c', c.skipTrivia newlines = (.ok comments, c')) ↔
        ∀ k, Trivia.MeetsBlock newlines c.rest k → Trivia.Closes (c.rest.drop k)) ∧
      (∀ comments c', c.skipTrivia newlines = (.ok comments, c') ↔
        c.SkipsTo newlines comments c') ∧
      (∀ comments c', c.skipTrivia newlines = (.ok comments, c') →
        c'.skipTrivia newlines = (.ok [], c')) ∧
      ∀ m c', c.skipTrivia newlines = (.error m, c') →
        m.fault = .unterminatedComment ∧ c' = c.advanceBy c.rest.length ∧
          ∃ k, m.location = (c.advanceBy k).location ∧
            IsLeast {k | Trivia.MeetsBlock newlines c.rest k ∧ ¬ Trivia.Closes (c.rest.drop k)}
              k := by
  refine ⟨⟨?_, ?_⟩, fun comments c' => skipTrivia_eq_ok_iff_skipsTo, ?_, ?_⟩
  · rintro ⟨comments, c', h⟩ k hmeets
    obtain ⟨n, hfound, -⟩ := skipTrivia_eq_ok_iff.mp h
    by_contra hopen
    have hbroken := Trivia.read_eq_broken_iff.mpr ⟨hmeets, hopen, rfl, rfl⟩
    rw [hfound] at hbroken
    cases hbroken
  · intro hcloses
    rcases hskip : c.skipTrivia newlines with ⟨m | comments, c'⟩
    · obtain ⟨site, n, hbroken, -, -⟩ := skipTrivia_eq_error_iff.mp hskip
      obtain ⟨hmeets, hopen, -, -⟩ := Trivia.read_eq_broken_iff.mp hbroken
      exact absurd (hcloses site hmeets) hopen
    · exact ⟨comments, c', rfl⟩
  · intro comments c' h
    have hstop := (skipTrivia_eq_ok_iff_skipsTo.mp h).significant
    exact skipTrivia_eq_ok_iff_skipsTo.mpr (.refl_of_significant hstop)
  · intro m c' h
    obtain ⟨site, n, hbroken, hlocation, rfl⟩ := skipTrivia_eq_error_iff.mp h
    obtain ⟨-, -, hfault, rfl⟩ := Trivia.read_eq_broken_iff.mp hbroken
    exact ⟨hfault, rfl, site, hlocation, Trivia.isLeast_of_read_eq_broken hbroken⟩

/-- Comments without a space between them, and in the second line one that is not closed, since its
marks share a star. -/
def sharedStar : Source := ⟨" /*/*///x\r\n/**//*/", by decide +kernel⟩

theorem skipTrivia_stops_at_significant_sharedStar :
    (start sharedStar).skipTrivia true =
        (.ok ["/*/*/", "//x"], (start sharedStar).advanceBy 10) ∧
      ((start sharedStar).advanceBy 10).skipTrivia true =
        (.ok [], (start sharedStar).advanceBy 10) ∧
      (start sharedStar).skipTrivia false =
        (.error ⟨.unterminatedComment, ⟨⟨2, 5⟩, 15⟩⟩, (start sharedStar).advanceBy 18) ∧
      ∃ k, ((start sharedStar).advanceBy k).location = ⟨⟨2, 5⟩, 15⟩ ∧
        Trivia.MeetsBlock false sharedStar.text k ∧ ¬ Trivia.Closes (sharedStar.text.drop k) := by
  have hskips : (start sharedStar).skipTrivia true =
      (.ok ["/*/*/", "//x"], (start sharedStar).advanceBy 10) := by decide +kernel
  have hfails : (start sharedStar).skipTrivia false =
      (.error ⟨.unterminatedComment, ⟨⟨2, 5⟩, 15⟩⟩, (start sharedStar).advanceBy 18) := by
    decide +kernel
  obtain ⟨-, -, hagain, -⟩ := skipTrivia_stops_at_significant (start sharedStar) true
  obtain ⟨-, -, -, herror⟩ := skipTrivia_stops_at_significant (start sharedStar) false
  obtain ⟨-, -, k, hlocation, ⟨hmeets, hopen⟩, -⟩ := herror _ _ hfails
  exact ⟨hskips, hagain _ _ hskips, hfails, k, hlocation.symm, hmeets, hopen⟩

end Cursor

end ScriptScanner
