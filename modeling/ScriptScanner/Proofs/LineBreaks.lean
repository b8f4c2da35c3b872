import ScriptScanner.Proofs.Scan
set_option autoImplicit false

/-!
# Scanning with and without line breaks

The same place is scanned in two ways, with line breaks as tokens and with line breaks as blanks.
The two scans differ only where a line break comes before the next token: then the one finds the
line break, and the other a token on a later line, namely the one that it would find from behind the
line break.  The comments before the line break belong to that token, and before its own.
-/

namespace ScriptScanner

namespace Trivia

/-- Where the trivia with line breaks as tokens end at no line feed, they are the trivia with line
breaks as blanks. -/
theorem read_false_of_not_lineFeed {t : Text} {comments : List Text} {n : Nat}
    (h : read true t = .found comments n) (hhead : (t.drop n).head? ≠ some CodeUnit.lineFeed) :
    read false t = .found comments n := by
  obtain ⟨_, _, habsent, hstop⟩ := isGap_of_read_eq_found h
  have hblank : ∀ u ∈ (t.drop n).head?, ¬ Blank false u := by
    rintro u hu (hspace | ⟨rfl, _⟩)
    · exact hstop u hu (.inl hspace)
    · exact hhead hu
  rw [read, readFrom_of_found_true h, Nat.sub_zero, readFrom_of_stop habsent hblank,
    List.reverse_reverse]

/-- Where they end at a line feed, the trivia with line breaks as blanks go on beyond it. -/
theorem lt_of_read_false_of_lineFeed {t : Text} {comments found : List Text} {m n : Nat}
    (h : read true t = .found comments n) (hhead : (t.drop n).head? = some CodeUnit.lineFeed)
    (hfalse : read false t = .found found m) : n < m := by
  rw [read, readFrom_of_found_true h, Nat.sub_zero] at hfalse
  obtain ⟨_, gap, after, hcut, _, rfl, _, _, hstop⟩ := isGap_of_readFrom_eq_found hfalse
  cases gap with
  | nil =>
    rw [hcut] at hhead
    exact absurd (.inr ⟨rfl, rfl⟩) (hstop _ hhead)
  | cons u rest => exact Nat.lt_add_of_pos_right (Nat.zero_lt_succ _)

end Trivia

/-! ## Comments of two tokens -/

namespace Token

/-- The same token after more comments, which come before its own. -/
def precededBy (t : Token) (comments : List Text) : Token :=
  { t with comments := comments ++ t.comments }

theorem precededBy_nil (t : Token) : t.precededBy [] = t := rfl

theorem precededBy_precededBy (t : Token) (comments others : List Text) :
    (t.precededBy others).precededBy comments = t.precededBy (comments ++ others) := by
  rw [precededBy, precededBy, precededBy, List.append_assoc]

theorem withComments_append (t : Token) (comments others : List Text) (h : t.comments = []) :
    t.withComments (comments ++ others) = (t.withComments others).precededBy comments := by
  have hset : ∀ cs : List Text, t.withComments cs = { t with comments := cs } := by
    intro cs
    rw [withComments]
    split
    · next hempty => rw [List.isEmpty_iff.mp hempty, ← h]
    · rfl
  rw [hset, hset, precededBy]

end Token

/-! ## One scan -/

namespace Cursor

variable {source : Source} {c c' : Cursor source} {operand : Bool}

/-- A scan depends on what line breaks are only by the trivia that it skips. -/
theorem next_congr {newlines newlines' : Bool}
    (h : Trivia.read newlines c.rest = Trivia.read newlines' c.rest) :
    c.next ⟨newlines, operand⟩ = c.next ⟨newlines', operand⟩ := by
  simp only [next, skipTrivia, h]

/-- At a line feed after the trivia, a scan with line breaks finds the line break. -/
theorem next_of_lineFeed (operand : Bool) {comments : List Text} {gap : Nat}
    (h : Trivia.read true c.rest = .found comments gap)
    (hhead : (c.rest.drop gap).head? = some CodeUnit.lineFeed) :
    c.next ⟨true, operand⟩ =
      (.ok ((Lexeme.newline.tokenAt (c.advanceBy gap).location
          ((c.advanceBy gap).advanceBy 1).offset).withComments comments),
        (c.advanceBy gap).advanceBy 1) := by
  obtain ⟨rest, hrest⟩ := List.head?_eq_some_iff.mp hhead
  have hlexeme : Lexeme.read operand (c.rest.drop gap) = .found Lexeme.newline 1 := by
    rw [hrest, Lexeme.read_lineFeed]
  exact next_of_found h hlexeme

/-- Where a scan with line breaks as blanks finds a token, a scan with line breaks as tokens finds
the same one, or else a line break on an earlier line. -/
theorem InPlace.next_true_of_next_false {t : Token} (hc : c.InPlace)
    (h : c.next ⟨false, operand⟩ = (.ok t, c')) :
    c.next ⟨true, operand⟩ = (.ok t, c') ∨
      ∃ t' c'', c.next ⟨true, operand⟩ = (.ok t', c'') ∧ t'.kind = .newline ∧ t'.line < t.line := by
  obtain ⟨start, hle, hcovers, hfalse⟩ := hc.exists_covers_of_next_eq_ok h
  cases htrue : Trivia.read true c.rest with
  | broken fault site n =>
    have hbroken : Trivia.read false c.rest = .broken fault site n :=
      Trivia.readFrom_of_broken_true htrue
    rw [hbroken] at hfalse
    cases hfalse
  | found comments gap =>
    by_cases hhead : (c.rest.drop gap).head? = some CodeUnit.lineFeed
    · right
      have hnext := next_of_lineFeed operand htrue hhead
      have hnewline := Token.withComments_kind
        (Lexeme.newline.tokenAt (c.advanceBy gap).location ((c.advanceBy gap).advanceBy 1).offset)
        comments
      refine ⟨_, _, hnext, hnewline, ?_⟩
      obtain ⟨start', hle', hcovers', htrue'⟩ := hc.exists_covers_of_next_eq_ok hnext
      obtain ⟨hfeed, -⟩ := hcovers'.lineFeed hnewline
      have hgap : gap = start' - c.offset := (Reading.found.inj (htrue.symm.trans htrue')).2
      have hbeyond := Trivia.lt_of_read_false_of_lineFeed htrue hhead hfalse
      have hline := Text.lineAt_mono source.text (show start' + 1 ≤ start by omega)
      rw [Text.lineAt_succ_of_lineFeed hfeed] at hline
      rw [hcovers'.line_eq, hcovers.line_eq]
      exact hline
    · left
      rw [← h]
      exact next_congr (htrue.trans (Trivia.read_false_of_not_lineFeed htrue hhead).symm)

/-- Without a line break, both ways of scanning find the same, whether a token or a fault. -/
theorem next_false_of_no_lineBreak {outcome : Except LocatedFault Token}
    (h : c.next ⟨true, operand⟩ = (outcome, c'))
    (hplain : ∀ t, outcome = .ok t → t.kind ≠ .newline) :
    c.next ⟨false, operand⟩ = (outcome, c') := by
  rw [← h]
  refine next_congr ?_
  cases htrue : Trivia.read true c.rest with
  | broken fault site n => exact Trivia.readFrom_of_broken_true htrue
  | found comments gap =>
    refine Trivia.read_false_of_not_lineFeed htrue fun hhead => ?_
    have hnext := next_of_lineFeed operand htrue hhead
    rw [h] at hnext
    refine hplain _ (congrArg Prod.fst hnext) ?_
    rw [Token.withComments_kind]
    rfl

/-- With line breaks as blanks, no scan finds a line break. -/
theorem kind_ne_newline_of_next_false {t : Token} (h : c.next ⟨false, operand⟩ = (.ok t, c')) :
    t.kind ≠ .newline := by
  obtain ⟨comments, gap, x, n, htrivia, hlexeme, rfl, rfl⟩ := exists_of_next_eq_ok h
  obtain ⟨_, _, _, hstop⟩ := Trivia.isGap_of_read_eq_found htrivia
  rw [Token.withComments_kind]
  intro hkind
  obtain ⟨_, rest, hrest⟩ := Lexeme.exists_lineFeed_of_read hlexeme hkind
  rw [hrest] at hstop
  exact hstop _ rfl (.inr ⟨rfl, rfl⟩)

/-- Where the trivia go on behind a number of units, the scan does what it does from there, and the
token gets the comments before that point as well. -/
theorem next_of_read_eq_resume {flags : Flags} {comments : List Text} {n : Nat}
    (h : Trivia.read flags.newlines c.rest =
      Trivia.resume comments n (Trivia.read flags.newlines (c.advanceBy n).rest)) :
    c.next flags =
      (((c.advanceBy n).next flags).1.map fun t => t.precededBy comments,
        ((c.advanceBy n).next flags).2) := by
  simp only [next, skipTrivia, h]
  cases Trivia.read flags.newlines (c.advanceBy n).rest with
  | broken fault site m =>
    simp only [Trivia.resume, Cursor.read, advanceBy_advanceBy]
    rfl
  | found own m =>
    simp only [Trivia.resume, Cursor.read, ← advanceBy_advanceBy]
    unfold Cursor.token
    cases Lexeme.read flags.operand ((c.advanceBy n).advanceBy m).rest with
    | broken fault site k => rfl
    | found x k =>
      simp only [Except.map]
      rw [Token.withComments_append _ _ _ rfl]

/-- With line breaks as blanks, the scan at the cursor is the scan at the other one, apart from more
comments before the token. -/
def Leads (c : Cursor source) (comments : List Text) (c' : Cursor source) : Prop :=
  ∀ operand, c.next ⟨false, operand⟩ =
    ((c'.next ⟨false, operand⟩).1.map fun t => t.precededBy comments,
      (c'.next ⟨false, operand⟩).2)

namespace Leads

variable {comments : List Text}

theorem refl (c : Cursor source) : c.Leads [] c := by
  intro operand
  rcases c.next ⟨false, operand⟩ with ⟨outcome, c'⟩
  cases outcome with
  | error m => rfl
  | ok t => rfl

theorem next_eq {outcome : Except LocatedFault Token} {c'' : Cursor source}
    (h : c.Leads comments c') (hnext : c'.next ⟨false, operand⟩ = (outcome, c'')) :
    c.next ⟨false, operand⟩ = (outcome.map fun t => t.precededBy comments, c'') := by
  rw [h, hnext]

theorem trans {others : List Text} {c'' : Cursor source} (h : c.Leads comments c')
    (h' : c'.Leads others c'') : c.Leads (comments ++ others) c'' := by
  intro operand
  rw [h, h']
  cases (c''.next ⟨false, operand⟩).1 with
  | error m => rfl
  | ok t => simp only [Except.map, Token.precededBy_precededBy]

end Leads

/-- Where the one scan finds a line break, the other one finds what it finds behind it, after the
comments of the line break. -/
theorem leads_of_lineBreak {t : Token} (h : c.next ⟨true, operand⟩ = (.ok t, c'))
    (ht : t.kind = .newline) : c.Leads t.comments c' := by
  obtain ⟨comments, gap, x, n, htrivia, hlexeme, rfl, rfl⟩ := exists_of_next_eq_ok h
  rw [Token.withComments_kind] at ht
  rw [Token.withComments_comments _ _ rfl, advanceBy_advanceBy]
  obtain ⟨rfl, rest, hrest⟩ := Lexeme.exists_lineFeed_of_read hlexeme ht
  have hbehind : c.rest.drop (gap + 1) = rest := by
    rw [← List.drop_drop, hrest, List.drop_succ_cons, List.drop_zero]
  refine fun _ => next_of_read_eq_resume ?_
  rw [advanceBy_rest, hbehind, Trivia.read, Trivia.readFrom_of_found_true htrivia, Nat.sub_zero,
    hrest, Trivia.readFrom_blank (.inr ⟨rfl, rfl⟩), Trivia.readFrom_eq_resume, List.reverse_reverse]

end Cursor

end ScriptScanner
