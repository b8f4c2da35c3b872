import ScriptScanner.Proofs.Locations
import ScriptScanner.Proofs.Tokenization.Attempts
set_option autoImplicit false

/-!
# Scanning goes forward and ends

A scan never moves a cursor back, and never beyond the end of the source.  The token that it finds
has a length unless nothing but blanks and comments was left; then it is the end of the source, and
from there on every scan finds the end again.  So a run over a whole source makes one attempt for
each unit at most, and one for the end, whatever its rule answers.
-/

namespace ScriptScanner

/-- The text consists of blanks and comments. -/
def Trivia.IsAll (newlines : Bool) (t : Text) : Prop := ∃ comments, IsGap newlines [] comments t

namespace Cursor

variable {source : Source} {c : Cursor source}

/-- The cursor after scans with these flags, whether they succeed or fail. -/
def afterScans (c : Cursor source) (scans : List Flags) : Cursor source :=
  scans.foldl (fun c flags => (c.next flags).2) c

/-- Where no scan moves the cursor, none of several does. -/
theorem afterScans_eq (h : ∀ flags, (c.next flags).2 = c) (scans : List Flags) :
    c.afterScans scans = c := by
  induction scans with
  | nil => rfl
  | cons flags scans ih => rwa [afterScans, List.foldl_cons, h flags]

/-- What a scan at the cursor with these flags comes to. -/
structure Progresses (c : Cursor source) (flags : Flags) : Prop where
  offset_le : c.offset ≤ (c.next flags).2.offset
  le_length : (c.next flags).2.offset ≤ source.text.length
  family_eq : ∀ m filename, (c.next flags).1 = .error m →
    (m.diagnose filename).family = some .lexer
  le_start : ∀ t, (c.next flags).1 = .ok t → (c.offset : Int) ≤ t.start
  stop_eq : ∀ t, (c.next flags).1 = .ok t → t.stop = (c.next flags).2.offset
  start_lt : ∀ t, (c.next flags).1 = .ok t → t.kind ≠ .endOfSource → t.start < t.stop
  isEnd_iff : (∃ t, (c.next flags).1 = .ok t ∧ t.kind = .endOfSource) ↔
    Trivia.IsAll flags.newlines c.rest
  /-- After further scans with any flags, the end is found again, at the same offset. -/
  behind_end : ∀ t, (c.next flags).1 = .ok t → t.kind = .endOfSource → ∀ scans flags', ∃ t',
    ((c.next flags).2.afterScans scans).next flags' = (.ok t', (c.next flags).2) ∧
      t'.kind = .endOfSource ∧ t'.start = t.start ∧ t'.stop = t.stop ∧ t'.comments = []

/-- The end of the source is found if and only if blanks and comments are all that is left. -/
theorem isEnd_iff (flags : Flags) :
    (∃ t, (c.next flags).1 = .ok t ∧ t.kind = .endOfSource) ↔
      Trivia.IsAll flags.newlines c.rest := by
  constructor
  · rintro ⟨t, hok, ht⟩
    obtain ⟨comments, gap, x, n, htrivia, hlexeme, rfl, _⟩ :=
      exists_of_next_eq_ok (Prod.ext hok rfl)
    rw [Token.withComments_kind] at ht
    have hrest := (Lexeme.isEnd_iff_of_read hlexeme).mp ht
    obtain ⟨_, hgap, _⟩ := Trivia.isGap_of_read_eq_found htrivia
    rw [hrest, List.take_of_length_le (List.drop_eq_nil_iff.mp hrest)] at hgap
    exact ⟨comments, hgap⟩
  · rintro ⟨comments, hgap⟩
    have hlexeme : Lexeme.read flags.operand (c.rest.drop c.rest.length) =
        .found Lexeme.endOfSource 0 := by
      rw [List.drop_length]
      rfl
    refine ⟨_, congrArg Prod.fst (next_of_found (Trivia.read_of_isGap hgap) hlexeme), ?_⟩
    rw [Token.withComments_kind]
    rfl

theorem InPlace.rest_eq_nil (hc : c.InPlace) (h : c.offset = source.text.length) : c.rest = [] := by
  have hend := hc.offset_add_length_rest
  exact List.length_eq_zero_iff.mp (by omega)

theorem InPlace.progresses (hc : c.InPlace) (flags : Flags) : c.Progresses flags := by
  rcases hnext : c.next flags with ⟨outcome, c'⟩
  obtain ⟨hc', hle⟩ := hc.of_next_eq hnext
  have htoken : ∀ t, (c.next flags).1 = .ok t → ∃ start, c.offset ≤ start ∧
      t.Covers source start c'.offset := by
    intro t hok
    rw [hnext] at hok
    cases hok
    obtain ⟨start, hstart, hcovers, _⟩ := hc.exists_covers_of_next_eq_ok hnext
    exact ⟨start, hstart, hcovers⟩
  refine ⟨?_, ?_, ?_, ?_, ?_, ?_, isEnd_iff flags, ?_⟩
  · simpa [hnext] using hle
  · simpa [hnext] using hc'.offset_le
  · intro m filename herror
    exact congrArg some (isLexical_of_next_eq_error (Prod.ext herror rfl))
  · intro t hok
    obtain ⟨start, hstart, hcovers⟩ := htoken t hok
    rw [hcovers.start_eq]
    exact Int.ofNat_le.mpr hstart
  · intro t hok
    obtain ⟨_, _, hcovers⟩ := htoken t hok
    rw [hnext, hcovers.stop_eq]
  · intro t hok ht
    obtain ⟨start, _, hcovers⟩ := htoken t hok
    rw [hcovers.start_eq, hcovers.stop_eq]
    exact Int.ofNat_lt.mpr (hcovers.start_lt ht)
  · intro t hok ht scans flags'
    obtain ⟨start, _, hcovers⟩ := htoken t hok
    have hlength := hcovers.stop_eq_length ht
    have hagain := next_of_rest_eq_nil (hc'.rest_eq_nil hlength)
    have hstay : c'.afterScans scans = c' := afterScans_eq (fun flags => by rw [hagain]) scans
    rw [hnext, hstay]
    refine ⟨_, hagain flags', rfl, ?_, ?_, rfl⟩
    · rw [hcovers.start_eq, hcovers.start_eq_length ht, ← hlength]
      rfl
    · rw [hcovers.stop_eq]
      rfl

end Cursor

/-! ## Whole sources -/

/-- How a run over a whole source ends, and after how many attempts at most. -/
structure Tokenization.Ends (source : Source) (s : Settings) (run : Tokenization) : Prop where
  length_asked_le : run.asked.length ≤ source.text.length + 1
  length_tokens_le : run.tokens.length ≤ source.text.length + 1
  /-- The run comes to the end of the source, or fails with a diagnostic of the lexer family, or
  with what a callback of the host said. -/
  outcome :
    (run.failure = none ∧ ∃ t, run.tokens.getLast? = some t ∧ t.kind = .endOfSource) ∨
      (∃ d, run.failure = some (.diagnostic d) ∧ d.family = some .lexer) ∨
      ∃ m, run.failure = some (.message m) ∧ s.observer.Answers m

theorem ends_tokenize (source : Source) (s : Settings) :
    (tokenize source s).Ends source s := by
  have hattempts := attempts_tokenize source s
  have hasked := hattempts.length_asked_le
  have htokens := hattempts.length_asked
  refine ⟨hasked, by rw [htokens] at hasked; exact Nat.le_trans (Nat.le_add_right _ _) hasked, ?_⟩
  rcases hfailure : (tokenize source s).failure with _ | ⟨d⟩ | ⟨m⟩
  · exact .inl ⟨rfl, hattempts.exists_getLast?_eq hfailure⟩
  · obtain ⟨_, _, _, _, hscan⟩ := hattempts.exists_scan_eq_error hfailure
    obtain ⟨fault, hnext, rfl⟩ := Observer.exists_of_scan_eq_diagnostic hscan
    exact .inr (.inl ⟨_, rfl, congrArg some (Cursor.isLexical_of_next_eq_error hnext)⟩)
  · obtain ⟨_, _, _, _, hscan⟩ := hattempts.exists_scan_eq_error hfailure
    exact .inr (.inr ⟨m, rfl, Observer.answers_of_scan hscan⟩)

/-- Every scan makes progress from wherever scans arrive, and every run over a source ends. -/
theorem progresses_and_ends (source : Source) :
    (∀ c : Cursor source, c.Scanned → ∀ flags, c.Progresses flags) ∧
      ∀ s : Settings, (tokenize source s).Ends source s :=
  ⟨fun _ hc flags => hc.inPlace.progresses flags, ends_tokenize source⟩

/-- A string that is not closed, and a line with a comment. -/
def openStringThenComment : Source := ⟨"'a\n /**/", by decide +kernel⟩

theorem progresses_and_ends_openStringThenComment :
    ((Cursor.start openStringThenComment).next ⟨true, true⟩).2.Scanned ∧
      Trivia.IsAll false ((Cursor.start openStringThenComment).next ⟨true, true⟩).2.rest ∧
      ∃ t, (((Cursor.start openStringThenComment).next ⟨true, true⟩).2.next ⟨false, false⟩).1 =
        .ok t ∧ t.kind = .endOfSource := by
  have hscanned : ((Cursor.start openStringThenComment).next ⟨true, true⟩).2.Scanned :=
    .next _ .start
  have hcomment : Trivia.IsBlockComment (Text.ofString "/**/") := ⟨[], rfl, nofun⟩
  have hall :
      Trivia.IsAll false ((Cursor.start openStringThenComment).next ⟨true, true⟩).2.rest := by
    have hblank : ∀ u ∈ Text.ofString "\n ", Trivia.Blank false u := by
      have hall : (Text.ofString "\n ").all (Trivia.isBlank false) = true := by decide
      exact fun u hu => Trivia.isBlank_iff.mp (List.all_eq_true.mp hall u hu)
    have hrest : ((Cursor.start openStringThenComment).next ⟨true, true⟩).2.rest =
        Text.ofString "\n " ++ Text.ofString "/**/" ++ [] := by decide +kernel
    rw [hrest]
    exact ⟨_, .comment hblank (.inl hcomment) (.blanks nofun)⟩
  obtain ⟨hprogresses, _⟩ := progresses_and_ends openStringThenComment
  exact ⟨hscanned, hall, (hprogresses _ hscanned ⟨false, false⟩).isEnd_iff.mpr hall⟩

end ScriptScanner
