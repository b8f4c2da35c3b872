import Mathlib.Data.List.TakeWhile
import ScriptScanner.Trivia
set_option autoImplicit false

/-!
# Blanks and comments

What trivia are is said here without reading them: a gap between tokens is a run of blanks, or such
a run, a comment, and a gap again.  Reading the trivia at the front of a text finds a gap, the
comments that are in it, and nothing beyond it that would belong to a gap.
-/

namespace ScriptScanner.Trivia

/-- The units that are blank whether or not line breaks are scanned. -/
def inlineBlanks : List CodeUnit :=
  [CodeUnit.space, CodeUnit.tab, CodeUnit.carriageReturn, CodeUnit.verticalTab, CodeUnit.formFeed,
    CodeUnit.noBreakSpace, CodeUnit.byteOrderMark]

/-- A unit is inline white space, or a line feed that is not scanned. -/
def Blank (newlines : Bool) (u : CodeUnit) : Prop :=
  u ∈ inlineBlanks ∨ (u = CodeUnit.lineFeed ∧ newlines = false)

/-- The mark that closes a block comment. -/
def closingMark : Text := [CodeUnit.star, CodeUnit.slash]

/-- An opening mark, and the text up to and with the first closing mark after it. -/
def IsBlockComment (comment : Text) : Prop :=
  ∃ body : Text, comment = CodeUnit.slash :: CodeUnit.star :: (body ++ closingMark) ∧
    ∀ i < body.length, ¬ closingMark <+: (body ++ closingMark).drop i

/-- Two slashes and the rest of their line; `after` is the text that follows. -/
def IsLineComment (comment after : Text) : Prop :=
  ∃ body : Text, comment = CodeUnit.slash :: CodeUnit.slash :: body ∧
    (∀ u ∈ body, u ≠ CodeUnit.lineFeed ∧ u ≠ CodeUnit.carriageReturn) ∧
    ∀ u ∈ after.head?, u = CodeUnit.lineFeed ∨ u = CodeUnit.carriageReturn

/-- The text `gap` before the text `after` consists of blanks and of the comments, in their order.
-/
inductive IsGap (newlines : Bool) (after : Text) : (comments : List Text) → (gap : Text) → Prop
  | blanks {blanks : Text} (blank : ∀ u ∈ blanks, Blank newlines u) : IsGap newlines after [] blanks
  | comment {blanks comment gap : Text} {comments : List Text}
      (blank : ∀ u ∈ blanks, Blank newlines u)
      (isComment : IsBlockComment comment ∨ IsLineComment comment (gap ++ after))
      (rest : IsGap newlines after comments gap) :
      IsGap newlines after (comment :: comments) (blanks ++ comment ++ gap)

/-- Of what comes after a gap the first unit matters alone, and at the end of the source there may
as well be a unit that ends lines. -/
theorem IsGap.replace {newlines : Bool} {comments : List Text} {gap after after' : Text}
    (h : IsGap newlines after comments gap)
    (hr : ∀ u ∈ after'.head?,
      u ∈ after.head? ∨ u = CodeUnit.lineFeed ∨ u = CodeUnit.carriageReturn) :
    IsGap newlines after' comments gap := by
  induction h with
  | blanks blank => exact .blanks blank
  | @comment blanks comment gap comments blank isComment _ ih =>
    refine .comment blank (isComment.imp_right ?_) ih
    rintro ⟨body, hcomment, hclean, hstop⟩
    refine ⟨body, hcomment, hclean, ?_⟩
    cases gap with
    | nil => exact fun u hu => (hr u hu).elim (hstop u) id
    | cons v gap => exact hstop

theorem isBlank_iff {newlines : Bool} {u : CodeUnit} :
    isBlank newlines u = true ↔ Blank newlines u := by
  have hspace : CharClass.inlineSpace.has u = true ↔ u ∈ inlineBlanks :=
    CharClass.has_ofUnits inlineBlanks u
  rw [isBlank, Bool.or_eq_true, hspace, Bool.and_eq_true, decide_eq_true_eq, Bool.not_eq_true',
    Blank]

/-! ## Cutting a text where a class of units ends -/

section Cut

variable (p : CodeUnit → Bool) (t : Text)

theorem take_length_takeWhile : t.take (t.takeWhile p).length = t.takeWhile p :=
  (List.prefix_iff_eq_take.mp (List.takeWhile_prefix p)).symm

theorem drop_length_takeWhile : t.drop (t.takeWhile p).length = t.dropWhile p := by
  have hcut : t.take (t.takeWhile p).length ++ t.drop (t.takeWhile p).length =
      t.takeWhile p ++ t.dropWhile p := by
    rw [List.take_append_drop, List.takeWhile_append_dropWhile]
  rw [take_length_takeWhile] at hcut
  exact List.append_cancel_left hcut

/-- The unit where the class ends is not of the class. -/
theorem not_of_mem_head?_dropWhile {u : CodeUnit} (h : u ∈ (t.dropWhile p).head?) : ¬ p u := by
  have hfind := List.find?_eq_head?_dropWhile_not (fun v => !p v) t
  simp only [Bool.not_not] at hfind
  rw [← hfind] at h
  simpa using List.find?_some h

variable {p}

/-- A run of a class ends where a unit comes that is not of the class. -/
theorem cut_append {run after : Text} (hrun : ∀ u ∈ run, p u = true)
    (hstop : ∀ u ∈ after.head?, p u = false) :
    (run ++ after).takeWhile p = run ∧ (run ++ after).dropWhile p = after := by
  rw [List.takeWhile_append_of_pos hrun, List.dropWhile_append_of_pos hrun]
  cases after with
  | nil => exact ⟨List.append_nil run, rfl⟩
  | cons u after =>
    have hu : p u = false := hstop u rfl
    rw [List.takeWhile_cons, List.dropWhile_cons, hu]
    exact ⟨List.append_nil run, rfl⟩

end Cut

/-! ## Comments -/

/-- A closing mark that is found is the first one. -/
theorem exists_of_closingMark?_eq_some {passed n : Nat} {t : Text}
    (h : closingMark? passed t = some n) :
    ∃ body after : Text, t = body ++ closingMark ++ after ∧ n = passed + body.length ∧
      ∀ i < body.length, ¬ closingMark <+: (body ++ closingMark).drop i := by
  induction t generalizing passed with
  | nil => cases h
  | cons u rest ih =>
    rw [closingMark?] at h
    split at h
    · next hmark =>
      cases h
      obtain ⟨hu, hhead⟩ : u = CodeUnit.star ∧ rest.head? = some CodeUnit.slash := by
        simpa using hmark
      obtain ⟨after, rfl⟩ := List.head?_eq_some_iff.mp hhead
      subst hu
      exact ⟨[], after, rfl, rfl, fun i hi => absurd hi (Nat.not_lt_zero i)⟩
    · next hmark =>
      obtain ⟨body, after, rfl, rfl, hfirst⟩ := ih h
      refine ⟨u :: body, after, rfl, ?_, ?_⟩
      · rw [List.length_cons]
        omega
      · rintro (_ | i) hi hprefix
        · -- a closing mark at `u` would have been found there
          apply hmark
          rw [List.drop_zero, List.cons_append, closingMark, List.cons_prefix_cons] at hprefix
          obtain ⟨hu, ⟨tail, htail⟩⟩ := hprefix
          rw [closingMark, ← htail, ← hu]
          rfl
        · exact hfirst i (Nat.lt_of_succ_lt_succ hi) hprefix

/-- Where a closing mark is found, the block comment ends with it. -/
theorem isBlockComment_of_closingMark? {rest : Text} {n : Nat} (h : closingMark? 0 rest = some n) :
    n + 4 ≤ (CodeUnit.slash :: CodeUnit.star :: rest).length ∧
      IsBlockComment ((CodeUnit.slash :: CodeUnit.star :: rest).take (n + 4)) := by
  obtain ⟨body, after, rfl, hlen, hfirst⟩ := exists_of_closingMark?_eq_some h
  have hmark : (body ++ closingMark).length = n + 2 := by
    rw [List.length_append, hlen, closingMark]
    exact congrArg (· + 2) (Nat.zero_add _).symm
  refine ⟨?_, body, ?_, hfirst⟩
  · rw [List.length_cons, List.length_cons, List.length_append, hmark]
    omega
  · rw [List.take_succ_cons, List.take_succ_cons, List.take_left' hmark]

/-- After two slashes, the units up to the end of the line are the rest of a line comment. -/
theorem isLineComment_takeWhile (rest : Text) {n : Nat}
    (hn : n = (rest.takeWhile fun u => !endsLine u).length) :
    n + 2 ≤ (CodeUnit.slash :: CodeUnit.slash :: rest).length ∧
      IsLineComment ((CodeUnit.slash :: CodeUnit.slash :: rest).take (n + 2))
        ((CodeUnit.slash :: CodeUnit.slash :: rest).drop (n + 2)) := by
  subst hn
  refine ⟨?_, rest.takeWhile fun u => !endsLine u, ?_, ?_, ?_⟩
  · have hle := (List.takeWhile_prefix (l := rest) fun u => !endsLine u).length_le
    exact Nat.add_le_add_right hle 2
  · rw [List.take_succ_cons, List.take_succ_cons, take_length_takeWhile]
  · intro u hu
    simpa [endsLine] using List.mem_takeWhile_imp hu
  · intro u hu
    rw [List.drop_succ_cons, List.drop_succ_cons, drop_length_takeWhile] at hu
    have hends := not_of_mem_head?_dropWhile _ rest hu
    rw [Bool.not_eq_true, Bool.not_eq_false'] at hends
    simpa only [endsLine, Bool.or_eq_true, decide_eq_true_eq] using hends

/-- A comment that is found lies in the text, and is a comment. -/
theorem isComment_of_comment_eq_closed {t : Text} {n : Nat} (h : comment t = .closed n) :
    n ≤ t.length ∧ (IsBlockComment (t.take n) ∨ IsLineComment (t.take n) (t.drop n)) := by
  unfold comment at h
  split at h
  · next u v rest =>
    split at h
    · next hu =>
      subst hu
      split at h
      · next hv =>
        subst hv
        split at h
        · next m hclosing =>
          cases h
          obtain ⟨hle, hblock⟩ := isBlockComment_of_closingMark? hclosing
          exact ⟨hle, .inl hblock⟩
        · cases h
      · split at h
        · next hv =>
          subst hv
          cases h
          obtain ⟨hle, hline⟩ := isLineComment_takeWhile rest rfl
          exact ⟨hle, .inr hline⟩
        · cases h
    · cases h
  · cases h

/-- The first closing mark is found. -/
theorem closingMark?_of_first {body : Text} (after : Text) (passed : Nat)
    (hfirst : ∀ i < body.length, ¬ closingMark <+: (body ++ closingMark).drop i) :
    closingMark? passed (body ++ closingMark ++ after) = some (passed + body.length) := by
  induction body generalizing passed with
  | nil => rfl
  | cons u body ih =>
    have hmark : ¬ (u = CodeUnit.star &&
        (body ++ closingMark ++ after).head? = some CodeUnit.slash) = true := by
      rw [Bool.and_eq_true, decide_eq_true_eq, decide_eq_true_eq]
      rintro ⟨rfl, hhead⟩
      refine hfirst 0 (Nat.zero_lt_succ _) ?_
      obtain ⟨v, tail, hcut⟩ := List.exists_cons_of_ne_nil (l := body ++ closingMark)
        (List.append_ne_nil_of_right_ne_nil _ nofun)
      rw [hcut] at hhead
      obtain rfl := Option.some.inj hhead
      exact ⟨tail, congrArg (CodeUnit.star :: ·) hcut.symm⟩
    rw [List.cons_append, List.cons_append, closingMark?, if_neg hmark,
      ih (passed + 1) fun i hi => hfirst (i + 1) (Nat.succ_lt_succ hi), List.length_cons]
    congr 1
    omega

/-- A comment at the front of a text is found, and nothing else in its place. -/
theorem comment_append {c after : Text} (h : IsBlockComment c ∨ IsLineComment c after) :
    comment (c ++ after) = .closed c.length := by
  rcases h with ⟨body, rfl, hfirst⟩ | ⟨body, rfl, hbody, hafter⟩
  · have hclosing := closingMark?_of_first after 0 hfirst
    rw [List.cons_append, List.cons_append, comment, if_pos rfl, if_pos rfl, hclosing]
    simp only [List.length_cons, List.length_append, closingMark, List.length_nil]
    congr 1
    omega
  · have hline : (body ++ after).takeWhile (fun w => !endsLine w) = body := by
      refine (cut_append (fun u hu => ?_) fun u hu => ?_).1
      · simpa [endsLine] using hbody u hu
      · rcases hafter u hu with rfl | rfl
        · rfl
        · rfl
    rw [List.cons_append, List.cons_append, comment, if_pos rfl, if_neg (by decide), if_pos rfl,
      hline]
    rfl

/-! ## Reading -/

theorem blank_of_mem_takeWhile {newlines : Bool} {t : Text} :
    ∀ u ∈ t.takeWhile (isBlank newlines), Blank newlines u :=
  fun _ hu => isBlank_iff.mp (List.mem_takeWhile_imp hu)

/-- A run of blanks and a closed comment at the front of a text lengthen the gap behind them. -/
theorem exists_longer_gap {newlines : Bool} {comments : List Text} {t gap after : Text} {n : Nat}
    (hclosed : comment (t.dropWhile (isBlank newlines)) = .closed n)
    (hrest : (t.dropWhile (isBlank newlines)).drop n = gap ++ after)
    (hgap : IsGap newlines after comments gap) :
    ∃ longer, t = longer ++ after ∧
      longer.length = (t.takeWhile (isBlank newlines)).length + n + gap.length ∧
      IsGap newlines after ((t.dropWhile (isBlank newlines)).take n :: comments) longer := by
  obtain ⟨hle, hcomment⟩ := isComment_of_comment_eq_closed hclosed
  rw [hrest] at hcomment
  refine ⟨t.takeWhile (isBlank newlines) ++ (t.dropWhile (isBlank newlines)).take n ++ gap, ?_, ?_,
    .comment blank_of_mem_takeWhile hcomment hgap⟩
  · rw [List.append_assoc, ← hrest, List.append_assoc, List.take_append_drop]
    exact List.takeWhile_append_dropWhile.symm
  · rw [List.length_append, List.length_append, List.length_take, Nat.min_eq_left hle]

theorem isGap_of_readFrom_eq_found {newlines : Bool} {earlier found : List Text} {passed n : Nat}
    {t : Text} (h : readFrom newlines earlier passed t = .found found n) :
    ∃ comments gap after, t = gap ++ after ∧ found = earlier.reverse ++ comments ∧
      n = passed + gap.length ∧ IsGap newlines after comments gap ∧ comment after = .absent ∧
      ∀ u ∈ after.head?, ¬ Blank newlines u := by
  fun_induction readFrom newlines earlier passed t with
  | case1 earlier passed t blanks ahead habsent =>
    cases h
    refine ⟨[], t.takeWhile (isBlank newlines), ahead, ?_, ?_, rfl, .blanks blank_of_mem_takeWhile,
      habsent, ?_⟩
    · exact List.takeWhile_append_dropWhile.symm
    · rw [List.append_nil]
    · intro u hu hu'
      exact not_of_mem_head?_dropWhile _ t hu (isBlank_iff.mpr hu')
  | case2 earlier passed t blanks ahead n hclosed ih =>
    obtain ⟨comments, gap, after, hrest, rfl, rfl, hgap, hstop⟩ := ih h
    obtain ⟨longer, hcut, hlength, hgap'⟩ := exists_longer_gap hclosed hrest hgap
    refine ⟨ahead.take n :: comments, longer, after, hcut, ?_, ?_, hgap', hstop⟩
    · rw [List.reverse_cons, List.append_assoc, List.singleton_append]
    · rw [hlength]
      omega
  | case3 => cases h

/-- Trivia that are broken are a gap before a comment that is not closed, and the reading gets to
the end of the text. -/
theorem isGap_of_readFrom_eq_broken {newlines : Bool} {earlier : List Text} {fault : Fault}
    {passed site n : Nat} {t : Text}
    (h : readFrom newlines earlier passed t = .broken fault site n) :
    ∃ comments gap after, t = gap ++ after ∧ IsGap newlines after comments gap ∧
      comment after = .unclosed ∧ fault = .unterminatedComment ∧ site = passed + gap.length ∧
      n = passed + t.length := by
  fun_induction readFrom newlines earlier passed t with
  | case1 => cases h
  | case2 earlier passed t blanks ahead m hclosed ih =>
    obtain ⟨comments, gap, after, hrest, hgap, hunclosed, rfl, rfl, rfl⟩ := ih h
    obtain ⟨longer, hcut, hlength, hgap'⟩ := exists_longer_gap hclosed hrest hgap
    have hwhole := congrArg List.length hcut
    refine ⟨ahead.take m :: comments, longer, after, hcut, hgap', hunclosed, rfl, ?_, ?_⟩
    · rw [hlength]
      omega
    · rw [hwhole, hrest, List.length_append, List.length_append, hlength]
      omega
  | case3 earlier passed t blanks ahead hunclosed =>
    cases h
    have hcut : t = t.takeWhile (isBlank newlines) ++ ahead :=
      List.takeWhile_append_dropWhile.symm
    have hwhole := congrArg List.length hcut
    refine ⟨[], t.takeWhile (isBlank newlines), ahead, hcut, .blanks blank_of_mem_takeWhile,
      hunclosed, rfl, rfl, ?_⟩
    rw [hwhole, List.length_append]
    omega

/-- Trivia that are found are a gap with its comments, and what follows is not trivia. -/
theorem isGap_of_read_eq_found {newlines : Bool} {comments : List Text} {n : Nat} {t : Text}
    (h : read newlines t = .found comments n) :
    n ≤ t.length ∧ IsGap newlines (t.drop n) comments (t.take n) ∧
      comment (t.drop n) = .absent ∧ ∀ u ∈ (t.drop n).head?, ¬ Blank newlines u := by
  obtain ⟨own, gap, after, rfl, rfl, rfl, hgap, habsent, hstop⟩ := isGap_of_readFrom_eq_found h
  rw [Nat.zero_add, List.length_append, List.drop_left, List.take_left]
  exact ⟨Nat.le_add_right _ _, hgap, habsent, hstop⟩

/-! ## Reading with and without line breaks

Where line breaks are scanned, reading stops at the first line feed outside comments.  Up to there
it makes no difference whether they are.
-/

section Steps

variable {newlines : Bool} {earlier : List Text} {passed : Nat}

/-- Reading is one run of blanks, and then what a comment or its absence asks for. -/
theorem readFrom_eq (t : Text) :
    readFrom newlines earlier passed t =
      match comment (t.dropWhile (isBlank newlines)) with
      | .absent => .found earlier.reverse (passed + (t.takeWhile (isBlank newlines)).length)
      | .closed n =>
          readFrom newlines ((t.dropWhile (isBlank newlines)).take n :: earlier)
            (passed + (t.takeWhile (isBlank newlines)).length + n)
            ((t.dropWhile (isBlank newlines)).drop n)
      | .unclosed =>
          .broken .unterminatedComment (passed + (t.takeWhile (isBlank newlines)).length)
            (passed + (t.takeWhile (isBlank newlines)).length +
              (t.dropWhile (isBlank newlines)).length) := by
  rw [readFrom]
  split
  · next h => rw [h]
  · next h => rw [h]
  · next h => rw [h]

/-- Blanks at the front are passed over. -/
theorem readFrom_append {blanks : Text} (t : Text) (h : ∀ u ∈ blanks, Blank newlines u) :
    readFrom newlines earlier passed (blanks ++ t) =
      readFrom newlines earlier (passed + blanks.length) t := by
  have hblank : ∀ u ∈ blanks, isBlank newlines u = true := fun u hu => isBlank_iff.mpr (h u hu)
  have htake : (blanks ++ t).takeWhile (isBlank newlines) =
      blanks ++ t.takeWhile (isBlank newlines) := List.takeWhile_append_of_pos hblank
  have hdrop : (blanks ++ t).dropWhile (isBlank newlines) = t.dropWhile (isBlank newlines) :=
    List.dropWhile_append_of_pos hblank
  have hlength : passed + (blanks ++ t.takeWhile (isBlank newlines)).length =
      passed + blanks.length + (t.takeWhile (isBlank newlines)).length := by
    rw [List.length_append, Nat.add_assoc]
  rw [readFrom_eq, readFrom_eq, htake, hdrop, hlength]

theorem readFrom_blank {u : CodeUnit} (h : Blank newlines u) (t : Text) :
    readFrom newlines earlier passed (u :: t) = readFrom newlines earlier (passed + 1) t := by
  have hblank : ∀ v ∈ [u], Blank newlines v := fun v hv => List.mem_singleton.mp hv ▸ h
  exact readFrom_append t hblank

/-- Nothing that begins a comment is blank. -/
theorem dropWhile_isBlank_of_comment (newlines : Bool) {t : Text} (h : comment t ≠ .absent) :
    t.takeWhile (isBlank newlines) = [] ∧ t.dropWhile (isBlank newlines) = t := by
  unfold comment at h
  split at h
  · split at h
    · next hu =>
      subst hu
      have hslash : isBlank newlines CodeUnit.slash = false := by cases newlines <;> rfl
      rw [List.takeWhile_cons, List.dropWhile_cons, hslash]
      exact ⟨rfl, rfl⟩
    · exact absurd rfl h
  · exact absurd rfl h

theorem readFrom_of_closed {t : Text} {n : Nat} (h : comment t = .closed n) :
    readFrom newlines earlier passed t =
      readFrom newlines (t.take n :: earlier) (passed + n) (t.drop n) := by
  obtain ⟨htake, hdrop⟩ := dropWhile_isBlank_of_comment newlines (t := t)
    (h ▸ Comment.noConfusion)
  rw [readFrom_eq, htake, hdrop, h]
  rfl

/-- A comment at the front is found. -/
theorem readFrom_comment {c t : Text} (h : IsBlockComment c ∨ IsLineComment c t) :
    readFrom newlines earlier passed (c ++ t) =
      readFrom newlines (c :: earlier) (passed + c.length) t := by
  rw [readFrom_of_closed (comment_append h), List.take_left, List.drop_left]

theorem readFrom_of_unclosed {t : Text} (h : comment t = .unclosed) :
    readFrom newlines earlier passed t =
      .broken .unterminatedComment passed (passed + t.length) := by
  obtain ⟨htake, hdrop⟩ := dropWhile_isBlank_of_comment newlines (t := t)
    (h ▸ Comment.noConfusion)
  rw [readFrom_eq, htake, hdrop, h]
  rfl

/-- At something that is neither blank nor a comment, nothing more is read. -/
theorem readFrom_of_stop {t : Text} (habsent : comment t = .absent)
    (hstop : ∀ u ∈ t.head?, ¬ Blank newlines u) :
    readFrom newlines earlier passed t = .found earlier.reverse passed := by
  have hcut : t.takeWhile (isBlank newlines) = [] ∧ t.dropWhile (isBlank newlines) = t := by
    cases t with
    | nil => exact ⟨rfl, rfl⟩
    | cons u rest =>
      have hu : isBlank newlines u = false := by
        rw [← Bool.not_eq_true, isBlank_iff]
        exact hstop u rfl
      rw [List.takeWhile_cons, List.dropWhile_cons, hu]
      exact ⟨rfl, rfl⟩
  rw [readFrom_eq, hcut.1, hcut.2, habsent]
  rfl

/-- A gap at the front of a text is passed over, and its comments are found. -/
theorem readFrom_of_isGap {comments : List Text} {gap after : Text}
    (h : IsGap newlines after comments gap) :
    readFrom newlines earlier passed (gap ++ after) =
      readFrom newlines (comments.reverse ++ earlier) (passed + gap.length) after := by
  induction h generalizing earlier passed with
  | blanks hblank => exact readFrom_append after hblank
  | @comment blanks comment gap comments hblank hcomment _ ih =>
    have hcount : passed + blanks.length + comment.length + gap.length =
        passed + (blanks ++ comment ++ gap).length := by
      simp only [List.length_append]
      omega
    have hcomments : comments.reverse ++ comment :: earlier =
        (comment :: comments).reverse ++ earlier := by simp
    rw [← hcount, ← hcomments, List.append_assoc, List.append_assoc, readFrom_append _ hblank,
      readFrom_comment hcomment, ih]

end Steps

/-- A text of blanks and comments is read to its end. -/
theorem read_of_isGap {newlines : Bool} {comments : List Text} {t : Text}
    (h : IsGap newlines [] comments t) : read newlines t = .found comments t.length := by
  have hfrom : readFrom newlines [] 0 (t ++ []) =
      readFrom newlines (comments.reverse ++ []) (0 + t.length) [] := readFrom_of_isGap h
  have habsent : comment [] = .absent := by simp [comment]
  rw [List.append_nil, readFrom_of_stop habsent nofun] at hfrom
  simpa [read] using hfrom

/-- What is found from a later point, counted from the beginning: after other comments and other
units. -/
def resume (earlier : List Text) (passed : Nat) : Reading (List Text) → Reading (List Text)
  | .found comments n => .found (earlier ++ comments) (passed + n)
  | .broken fault site n => .broken fault (passed + site) (passed + n)

/-- What was passed before makes no difference to what is read. -/
theorem readFrom_eq_resume (newlines : Bool) (earlier : List Text) (passed : Nat) (t : Text) :
    readFrom newlines earlier passed t = resume earlier.reverse passed (read newlines t) := by
  have hfrom : ∀ (more : List Text) (further : Nat),
      readFrom newlines (more ++ earlier) (passed + further) t =
        resume earlier.reverse passed (readFrom newlines more further t) := by
    intro more further
    fun_induction readFrom newlines more further t with
    | case1 more further t blanks ahead habsent =>
      rw [readFrom_eq, habsent, resume, List.reverse_append, Nat.add_assoc]
    | case2 more further t blanks ahead n hclosed ih =>
      have hcount : passed + (further + blanks + n) = passed + further + blanks + n := by omega
      rw [readFrom_eq, hclosed, ← ih, hcount]
      rfl
    | case3 more further t blanks ahead hunclosed =>
      rw [readFrom_eq, hunclosed, resume, Nat.add_assoc, Nat.add_assoc, Nat.add_assoc]
  exact hfrom [] 0

/-- The blanks of lines are blank in both ways of reading. -/
theorem readFrom_dropWhile {newlines : Bool} {earlier : List Text} {passed : Nat} (t : Text) :
    readFrom newlines earlier passed t =
      readFrom newlines earlier (passed + (t.takeWhile (isBlank true)).length)
        (t.dropWhile (isBlank true)) := by
  have hblank : ∀ u ∈ t.takeWhile (isBlank true), Blank newlines u := by
    intro u hu
    obtain hspace | ⟨_, hfalse⟩ := isBlank_iff.mp (List.mem_takeWhile_imp hu)
    · exact .inl hspace
    · cases hfalse
  rw [← readFrom_append _ hblank, List.takeWhile_append_dropWhile]

/-- Where reading stops while line breaks are scanned, it goes on if they are not. -/
theorem readFrom_of_found_true {newlines : Bool} {earlier found : List Text} {passed n : Nat}
    {t : Text} (h : readFrom true earlier passed t = .found found n) :
    readFrom newlines earlier passed t =
      readFrom newlines found.reverse n (t.drop (n - passed)) := by
  fun_induction readFrom true earlier passed t with
  | case1 earlier passed t blanks ahead habsent =>
    cases h
    rw [readFrom_dropWhile, List.reverse_reverse, Nat.add_sub_cancel_left, drop_length_takeWhile]
  | case2 earlier passed t blanks ahead m hclosed ih =>
    obtain ⟨_, gap, _, _, _, hn, _⟩ := isGap_of_readFrom_eq_found h
    have hahead : t.drop blanks = ahead := drop_length_takeWhile _ t
    have hdrop : (ahead.drop m).drop (n - (passed + blanks + m)) = t.drop (n - passed) := by
      rw [← hahead, List.drop_drop, List.drop_drop]
      congr 1
      omega
    rw [readFrom_dropWhile, readFrom_of_closed hclosed, ih h, hdrop]
  | case3 => cases h

/-- An unclosed comment is met in both ways of reading. -/
theorem readFrom_of_broken_true {newlines : Bool} {earlier : List Text} {passed site n : Nat}
    {fault : Fault} {t : Text} (h : readFrom true earlier passed t = .broken fault site n) :
    readFrom newlines earlier passed t = .broken fault site n := by
  fun_induction readFrom true earlier passed t with
  | case1 => cases h
  | case2 earlier passed t blanks ahead m hclosed ih =>
    rw [readFrom_dropWhile, readFrom_of_closed hclosed, ih h]
  | case3 earlier passed t blanks ahead hunclosed =>
    rw [readFrom_dropWhile, readFrom_of_unclosed hunclosed, ← h]

end ScriptScanner.Trivia
