import ScriptScanner.Proofs.Lexeme.Front
set_option autoImplicit false

/-!
# A source inside another one

One source stands in another one, from the beginning of a line on.  What is scanned of the smaller
one by itself is scanned of it there too, and every place is moved by the lines and units that come
before it.  If nothing comes after the smaller one, this is so of everything; if a line feed comes
after it, of all tokens before its end, for no reader goes beyond a line feed to find a token, and a
comment that ends with the source ends before the line feed as well.
-/

namespace ScriptScanner

/-! ## Places -/

section Moved

variable (lines units : Nat)

/-- A location as it is after more lines and units, where a line begins after them. -/
def Location.moved (l : Location) : Location :=
  { l with line := l.line + lines, offset := l.offset + units }

/-- A token as it is after more lines and units. -/
def Token.moved (t : Token) : Token :=
  { t with line := t.line + lines, start := t.start + units, stop := t.stop + units }

/-- A fault as it is reported after more lines and units. -/
def LocatedFault.moved (m : LocatedFault) : LocatedFault :=
  { m with location := m.location.moved lines units }

variable {lines units}

@[simp] theorem Token.moved_kind (t : Token) : (t.moved lines units).kind = t.kind := rfl

theorem Token.moved_zero (t : Token) : t.moved 0 0 = t := by
  simp only [moved, Int.natCast_zero, Int.add_zero]

theorem Token.withComments_moved (t : Token) (comments : List Text) :
    (t.withComments comments).moved lines units = (t.moved lines units).withComments comments := by
  rw [withComments, withComments]
  split
  · rfl
  · rfl

end Moved

/-- The text of the one source is the text of the other one between two more, and it begins where a
line begins. -/
structure Source.Contains (whole piece : Source) (before after : Text) : Prop where
  text_eq : whole.text = before ++ (piece.text ++ after)
  beginsLine : ∀ u ∈ before.getLast?, u = CodeUnit.lineFeed

namespace Source.Contains

variable {piece whole : Source} {before after : Text}

theorem take_eq (h : whole.Contains piece before after) {offset : Nat}
    (hle : offset ≤ piece.text.length) :
    whole.text.take (before.length + offset) = before ++ piece.text.take offset := by
  rw [h.text_eq, List.take_length_add_append, List.take_append_of_le_length hle]

theorem drop_eq (h : whole.Contains piece before after) {offset : Nat}
    (hle : offset ≤ piece.text.length) :
    whole.text.drop (before.length + offset) = piece.text.drop offset ++ after := by
  rw [h.text_eq, List.drop_length_add_append, List.drop_append_of_le_length hle]

theorem lineAt_eq (h : whole.Contains piece before after) {offset : Nat}
    (hle : offset ≤ piece.text.length) :
    whole.text.lineAt (before.length + offset) =
      piece.text.lineAt offset + before.count CodeUnit.lineFeed := by
  rw [Text.lineAt, Text.lineAt, h.take_eq hle, List.count_append]
  omega

/-- Columns are counted from the beginning of a line, and no line goes on from before. -/
theorem columnAt_eq (h : whole.Contains piece before after) {offset : Nat}
    (hle : offset ≤ piece.text.length) :
    whole.text.columnAt (before.length + offset) = piece.text.columnAt offset := by
  have hnone : before.reverse.takeWhile (fun u => u ≠ CodeUnit.lineFeed) = [] := by
    cases hcut : before.reverse with
    | nil => rfl
    | cons u rest =>
      have hlast : before.getLast? = some u := by
        rw [← List.head?_reverse, hcut, List.head?_cons]
      exact List.takeWhile_cons_of_neg (by simpa using h.beginsLine u hlast)
  rw [Text.columnAt, Text.columnAt, h.take_eq hle, List.reverse_append, List.takeWhile_append,
    hnone, List.append_nil]
  split
  · next hall =>
    rw [(List.takeWhile_sublist _).eq_of_length hall]
  · rfl

theorem locationAt_eq (h : whole.Contains piece before after) {offset : Nat}
    (hle : offset ≤ piece.text.length) :
    whole.locationAt (before.length + offset) =
      (piece.locationAt offset).moved (before.count CodeUnit.lineFeed) before.length := by
  rw [Source.locationAt, h.lineAt_eq hle, h.columnAt_eq hle, Source.locationAt, Location.moved,
    Int.natCast_add, Int.add_comm before.length]

end Source.Contains

/-! ## Readings before a line feed -/

/-- The number of units of a lexeme that is found is in the text. -/
theorem Lexeme.le_length_of_read_eq_found {operand : Bool} {t : Text} {x : Lexeme} {n : Nat}
    (h : read operand t = .found x n) : n ≤ t.length := by
  cases t with
  | nil =>
    cases h
    exact Nat.le_refl 0
  | cons u rest =>
    obtain ⟨raw, after, hcut, rfl, -⟩ := exists_finds h (List.cons_ne_nil u rest)
    rw [hcut, List.length_append]
    exact Nat.le_add_right _ _

section LineFeed

variable {t : Text} {comments : List Text} {gap : Nat} (tail : Text)

/-- Trivia and a lexeme at the front of a text are read the same before a line feed. -/
theorem Lexeme.reads_append_lineFeed {operand : Bool} {x : Lexeme} {n : Nat}
    (htrivia : Trivia.read false t = .found comments gap)
    (hlexeme : read operand (t.drop gap) = .found x n) (hsome : t.drop gap ≠ []) :
    Trivia.read false (t ++ CodeUnit.lineFeed :: tail) = .found comments gap ∧
      read operand ((t ++ CodeUnit.lineFeed :: tail).drop gap) = .found x n := by
  obtain ⟨hle, hgap, habsent, hstop⟩ := Trivia.isGap_of_read_eq_found htrivia
  obtain ⟨raw, after, hcut, rfl, hraw, hfinds⟩ := exists_finds hlexeme hsome
  have hreplace : MayReplace (after ++ CodeUnit.lineFeed :: tail) after := by
    cases after with
    | nil => exact fun u hu => .inr (.inr ⟨(Option.some.inj hu).symm, rfl⟩)
    | cons u after => exact fun v hv => .inl hv
  have hdrop : (t ++ CodeUnit.lineFeed :: tail).drop gap =
      raw ++ (after ++ CodeUnit.lineFeed :: tail) := by
    rw [List.drop_append_of_le_length hle, hcut, List.append_assoc]
  have hhead : ∀ u ∈ (raw ++ (after ++ CodeUnit.lineFeed :: tail)).head?,
      u ∈ (t.drop gap).head? := by
    obtain ⟨u, rest, rfl⟩ := List.exists_cons_of_ne_nil hraw
    rw [hcut]
    exact fun v hv => hv
  have hgap' := hgap.replace fun u hu => .inl (hhead u hu)
  have htext : t ++ CodeUnit.lineFeed :: tail =
      t.take gap ++ (raw ++ (after ++ CodeUnit.lineFeed :: tail)) := by
    rw [← hdrop, ← List.take_append_of_le_length hle, List.take_append_drop]
  rw [hcut] at habsent hstop
  have hnothing := Trivia.read_replace hraw hreplace habsent hstop
  refine ⟨?_, ?_⟩
  · rw [htext, Trivia.read, Trivia.readFrom_of_isGap hgap', Trivia.readFrom_eq_resume, hnothing,
      List.length_take, Nat.min_eq_left hle]
    simp [Trivia.resume]
  · rw [hdrop]
    exact hfinds _ hreplace

/-- Trivia up to the end of a text go on behind a line feed. -/
theorem Trivia.read_append_lineFeed (h : read false t = .found comments gap)
    (hnone : t.drop gap = []) :
    read false (t ++ CodeUnit.lineFeed :: tail) =
      resume comments (t.length + 1) (read false tail) := by
  obtain ⟨-, hgap, -, -⟩ := isGap_of_read_eq_found h
  rw [hnone, List.take_of_length_le (List.drop_eq_nil_iff.mp hnone)] at hgap
  have hgap' : IsGap false (CodeUnit.lineFeed :: tail) comments t :=
    hgap.replace fun u hu => .inr (.inl (Option.some.inj hu).symm)
  rw [read, readFrom_of_isGap hgap', readFrom_blank (.inr ⟨rfl, rfl⟩), readFrom_eq_resume,
    List.append_nil, List.reverse_reverse, Nat.zero_add]

end LineFeed

/-! ## Scans -/

namespace Cursor

variable {piece whole : Source} {before after : Text} {c c' : Cursor piece} {d : Cursor whole}
  {flags : Flags}

/-- Two cursors stand at the same unit of the smaller source. -/
structure Corresponds (before : Text) (c : Cursor piece) (d : Cursor whole) : Prop where
  inPlace : c.InPlace
  inPlace_whole : d.InPlace
  offset_eq : d.offset = before.length + c.offset

namespace Corresponds

theorem rest_eq (hs : whole.Contains piece before after) (h : c.Corresponds before d) :
    d.rest = c.rest ++ after := by
  rw [d.rest_eq, h.offset_eq, hs.drop_eq h.inPlace.offset_le, c.rest_eq]

theorem location_eq (hs : whole.Contains piece before after) (h : c.Corresponds before d) :
    d.location = c.location.moved (before.count CodeUnit.lineFeed) before.length := by
  rw [h.inPlace_whole.location_eq, h.offset_eq, hs.locationAt_eq h.inPlace.offset_le,
    h.inPlace.location_eq]

theorem advanceBy (hs : whole.Contains piece before after) (h : c.Corresponds before d) {n : Nat}
    (hn : n ≤ c.rest.length ∨ after = []) :
    (c.advanceBy n).Corresponds before (d.advanceBy n) := by
  refine ⟨h.inPlace.advanceBy n, h.inPlace_whole.advanceBy n, ?_⟩
  have hmin : min n d.rest.length = min n c.rest.length := by
    rw [h.rest_eq hs, List.length_append]
    rcases hn with hle | rfl
    · omega
    · rfl
  rw [advanceBy_offset, advanceBy_offset, h.offset_eq, hmin, Nat.add_assoc]

/-- Where the same is found at both cursors, the same token is scanned, in its place. -/
theorem next_of_found (hs : whole.Contains piece before after) (h : c.Corresponds before d)
    {comments : List Text} {gap n : Nat} {x : Lexeme}
    (htrivia : Trivia.read flags.newlines c.rest = .found comments gap)
    (hlexeme : Lexeme.read flags.operand (c.rest.drop gap) = .found x n)
    (htrivia_whole : Trivia.read flags.newlines d.rest = .found comments gap)
    (hlexeme_whole : Lexeme.read flags.operand (d.rest.drop gap) = .found x n) :
    ∃ t c' d', c.next flags = (.ok t, c') ∧
      d.next flags = (.ok (t.moved (before.count CodeUnit.lineFeed) before.length), d') ∧
      c'.Corresponds before d' := by
  have hgap := (Trivia.isGap_of_read_eq_found htrivia).1
  have hlength := Lexeme.le_length_of_read_eq_found hlexeme
  have hstart := h.advanceBy hs (.inl hgap)
  have hstop := hstart.advanceBy hs (.inl hlength)
  refine ⟨_, _, _, Cursor.next_of_found htrivia hlexeme, ?_, hstop⟩
  rw [Cursor.next_of_found htrivia_whole hlexeme_whole, Token.withComments_moved,
    hstart.location_eq hs, hstop.offset_eq, Int.natCast_add, Int.add_comm before.length]
  rfl

/-! ### Nothing after the smaller source -/

theorem exists_next_eq_ok (hs : whole.Contains piece before []) (h : c.Corresponds before d)
    {t : Token} (hnext : c.next flags = (.ok t, c')) :
    ∃ d', d.next flags = (.ok (t.moved (before.count CodeUnit.lineFeed) before.length), d') ∧
      c'.Corresponds before d' := by
  obtain ⟨comments, gap, x, n, htrivia, hlexeme, -, -⟩ := exists_of_next_eq_ok hnext
  have hrest : d.rest = c.rest := (h.rest_eq hs).trans (List.append_nil _)
  obtain ⟨t', c'', d', hscan, hwhole, hbehind⟩ :=
    h.next_of_found hs htrivia hlexeme (hrest ▸ htrivia) (hrest ▸ hlexeme)
  cases hnext.symm.trans hscan
  exact ⟨d', hwhole, hbehind⟩

theorem exists_next_eq_error (hs : whole.Contains piece before []) (h : c.Corresponds before d)
    {m : LocatedFault} (hnext : c.next flags = (.error m, c')) :
    ∃ d', d.next flags =
      (.error (m.moved (before.count CodeUnit.lineFeed) before.length), d') := by
  have hrest : d.rest = c.rest := (h.rest_eq hs).trans (List.append_nil _)
  obtain ⟨site, n, htrivia, hlocation, -⟩ | ⟨comments, gap, site, n, htrivia, hlexeme, hlocation,
    -⟩ := exists_of_next_eq_error hnext
  · have hsite : (c.advanceBy site).Corresponds before (d.advanceBy site) :=
      h.advanceBy hs (.inr rfl)
    refine ⟨d.advanceBy n, ?_⟩
    rw [next_of_trivia_broken (hrest ▸ htrivia), hsite.location_eq hs, ← hlocation]
    rfl
  · have hgap : (c.advanceBy gap).Corresponds before (d.advanceBy gap) :=
      h.advanceBy hs (.inr rfl)
    have hsite : ((c.advanceBy gap).advanceBy site).Corresponds before
        ((d.advanceBy gap).advanceBy site) := hgap.advanceBy hs (.inr rfl)
    refine ⟨(d.advanceBy gap).advanceBy n, ?_⟩
    rw [next_of_broken (hrest ▸ htrivia) (hrest ▸ hlexeme), hsite.location_eq hs, ← hlocation]
    rfl

/-! ### A line feed after the smaller source -/

variable {operand : Bool} {t : Token} {tail : Text}

/-- A token before the end of the smaller source is scanned of the larger one too. -/
theorem exists_next_of_lineFeed
    (hs : whole.Contains piece before (CodeUnit.lineFeed :: tail)) (h : c.Corresponds before d)
    (hnext : c.next ⟨false, operand⟩ = (.ok t, c')) (ht : t.kind ≠ .endOfSource) :
    ∃ d', d.next ⟨false, operand⟩ =
        (.ok (t.moved (before.count CodeUnit.lineFeed) before.length), d') ∧
      c'.Corresponds before d' := by
  obtain ⟨comments, gap, x, n, htrivia, hlexeme, rfl, -⟩ := exists_of_next_eq_ok hnext
  have hsome : c.rest.drop gap ≠ [] := by
    rw [Token.withComments_kind] at ht
    exact mt (Lexeme.isEnd_iff_of_read hlexeme).mpr ht
  obtain ⟨htrivia', hlexeme'⟩ := Lexeme.reads_append_lineFeed tail htrivia hlexeme hsome
  rw [← h.rest_eq hs] at htrivia' hlexeme'
  obtain ⟨t', c'', d', hscan, hwhole, hbehind⟩ :=
    h.next_of_found hs htrivia hlexeme htrivia' hlexeme'
  cases hnext.symm.trans hscan
  exact ⟨d', hwhole, hbehind⟩

/-- At the end of the smaller source, the larger one is scanned on from the cursor behind the line
feed, and the comments go to the token there. -/
theorem leads_of_isEnd (hs : whole.Contains piece before (CodeUnit.lineFeed :: tail))
    (h : c.Corresponds before d) (hnext : c.next ⟨false, operand⟩ = (.ok t, c'))
    (ht : t.kind = .endOfSource) {behind : Cursor whole} (hbehind : behind.InPlace)
    (hoffset : behind.offset = before.length + piece.text.length + 1) :
    d.Leads t.comments behind := by
  obtain ⟨comments, gap, x, n, htrivia, hlexeme, rfl, -⟩ := exists_of_next_eq_ok hnext
  have hnone : c.rest.drop gap = [] := by
    rw [Token.withComments_kind] at ht
    exact (Lexeme.isEnd_iff_of_read hlexeme).mp ht
  have hrest : (d.advanceBy (c.rest.length + 1)).rest = tail := by
    rw [advanceBy_rest, h.rest_eq hs, List.drop_length_add_append]
    rfl
  have heq : behind = d.advanceBy (c.rest.length + 1) := by
    refine hbehind.eq_of_offset_eq (h.inPlace_whole.advanceBy _) ?_
    have hend := h.inPlace.offset_add_length_rest
    rw [advanceBy_offset, hoffset, h.rest_eq hs, h.offset_eq, List.length_append, List.length_cons]
    omega
  rw [heq]
  refine fun _ => next_of_read_eq_resume ?_
  rw [hrest, h.rest_eq hs, Token.withComments_comments _ _ rfl]
  exact Trivia.read_append_lineFeed tail htrivia hnone

end Corresponds

end Cursor

end ScriptScanner
