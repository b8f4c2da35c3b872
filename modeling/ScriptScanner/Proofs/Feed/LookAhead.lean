import ScriptScanner.Proofs.Feed.Representation
import ScriptScanner.Proofs.LineBreaks
import ScriptScanner.Proofs.Observer
set_option autoImplicit false

/-!
# Looking ahead where nothing waits

Where no entry waits, to look ahead is to scan a token and to let it wait.  A later taking finds it
there and does what it would have done without the look: it takes the token, or fails as the look
did.

A look within the line scans a line break for a token.  Taking passes over the line break and scans
behind it, so it takes the same token at the same place.  But the comments before the line break
were given to the line break, and they stay with it: the token that is taken has them only if nobody
looked.
-/

namespace ScriptScanner

namespace Tape

variable {source : Source} {o : Observer} {m : Tape source} {c : Cursor source} {j : Journal}

/-- The tape after a scan whose token waits. -/
def look (m : Tape source) (t : Token) (cursor : Cursor source) (journal : Journal) :
    Tape source :=
  { m with cursor, journal, pending := [⟨t, cursor.line⟩] }

/-- Where nothing waits, to take is to scan. -/
theorem take_of_pending_eq_nil (o : Observer) (hp : m.pending = []) : m.take o = m.scan o := by
  have hm : { m with pending := [] } = m := by rw [← hp]
  rw [take, hp, takeFrom, hm]

theorem scan_of_error {failure : Failure}
    (h : o.scan m.filename m.cursor m.flags m.journal = (.error failure, c, j)) :
    m.scan o = (.error failure, { m with cursor := c, journal := j }) := by
  rw [scan, h]

theorem scan_of_ok {t : Token}
    (h : o.scan m.filename m.cursor m.flags m.journal = (.ok t, c, j)) :
    m.scan o = (.ok t.kind,
      { m with cursor := c, journal := j, consumed := ⟨t, c.line⟩ :: m.consumed }) := by
  rw [scan, h]

/-- With line breaks as blanks, no scan finds one. -/
theorem plain_of_scan {t : Token}
    (h : o.scan m.filename m.cursor m.flags m.journal = (.ok t, c, j)) :
    t.kind ≠ .newline ∨ m.flags.newlines = true := by
  cases hm : m.flags.newlines with
  | true => exact .inr rfl
  | false =>
    have hflags : m.flags = ⟨false, m.flags.operand⟩ := by rw [← hm]
    have hnext := Observer.next_eq_ok_of_scan h
    rw [hflags] at hnext
    exact .inl (Cursor.kind_ne_newline_of_next_false hnext)

/-- Where no line break waits, none is forgotten. -/
theorem dropPendingNewlines_of_plain (room : Option Nat)
    (h : ∀ e ∈ m.pending, e.isNewline = false) : m.dropPendingNewlines room = m := by
  have hkept : m.pending.filter (fun e => !e.isNewline) = m.pending := by
    refine List.filter_eq_self.mpr fun e he => ?_
    rw [h e he]
    rfl
  rw [dropPendingNewlines, hkept, if_pos rfl]

theorem ensurePending_of_error {failure : Failure} (hp : m.pending = [])
    (h : o.scan m.filename m.cursor m.flags m.journal = (.error failure, c, j)) :
    m.ensurePending o = (.error failure, { m with cursor := c, journal := j }) := by
  have hlength : m.pending.length = 0 := by rw [hp, List.length_nil]
  rw [ensurePending, if_pos hlength, take_of_pending_eq_nil o hp, scan_of_error h]

theorem ensurePending_of_ok {t : Token} (hp : m.pending = [])
    (h : o.scan m.filename m.cursor m.flags m.journal = (.ok t, c, j)) :
    m.ensurePending o = (.ok (), m.look t c j) := by
  have hlength : m.pending.length = 0 := by rw [hp, List.length_nil]
  have hroom : ¬ ([] : List Entry).length = Ring.maxPending := by decide
  rw [ensurePending, if_pos hlength, take_of_pending_eq_nil o hp, scan_of_ok h]
  simp only [putBack, look, hp, if_neg hroom]

theorem ensurePending_of_waiting (o : Observer) (hp : m.pending ≠ []) :
    m.ensurePending o = (.ok (), m) := by
  rw [ensurePending, if_neg fun hlength => hp (List.length_eq_zero_iff.mp hlength)]

/-- Apart from what it drops, a look ahead only sees to it that some token waits. -/
theorem snd_peek (room : Option Nat) (o : Observer) (m : Tape source) :
    (m.peek room o).2 =
      ((if m.flags.newlines then m else m.dropPendingNewlines room).ensurePending o).2 := by
  rw [peek]
  split
  · next heq => rw [heq]
  · next heq =>
    rw [heq]
    split
    · next hnone =>
      exact absurd (List.head?_eq_none_iff.mp hnone) (pending_ne_nil_of_ensurePending heq)
    · split
      · rfl
      · rfl

section Peek

variable {room : Option Nat}
  (hplain : ∀ e ∈ m.pending, e.isNewline = false ∨ m.flags.newlines = true)

include hplain

/-- Unless a line break waits while line breaks are blanks, a look forgets nothing. -/
theorem peek_forgets_nothing :
    (if m.flags.newlines = true then m else m.dropPendingNewlines room) = m := by
  split
  · rfl
  · next hfalse =>
    exact dropPendingNewlines_of_plain room fun e he => (hplain e he).resolve_right hfalse

theorem peek_of_ensurePending_error {failure : Failure} {m' : Tape source}
    (h : m.ensurePending o = (.error failure, m')) : m.peek room o = (.error failure, m') := by
  rw [peek, peek_forgets_nothing hplain, h]

theorem exists_peek_of_ensurePending {m' : Tape source} (h : m.ensurePending o = (.ok (), m')) :
    ∃ k, m.peek room o = (.ok k, m') := by
  rw [peek, peek_forgets_nothing hplain, h]
  cases hp : m'.pending with
  | nil => exact absurd hp (pending_ne_nil_of_ensurePending h)
  | cons e rest =>
    simp only [hp, List.head?_cons]
    split
    · exact ⟨_, rfl⟩
    · exact ⟨_, rfl⟩

end Peek

/-! ## A look within the line -/

section WithinLine

variable {room : Option Nat} {t : Token} (hp : m.pending = [])

include hp

theorem peekWithinLine_of_error {failure : Failure}
    (h : o.scan m.filename m.cursor ⟨true, m.flags.operand⟩ m.journal = (.error failure, c, j)) :
    m.peekWithinLine room o = (.error failure, { m with cursor := c, journal := j }) := by
  have hpending : (m.setNewlines true).pending = [] := hp
  have hensure : (m.setNewlines true).ensurePending o =
      (.error failure, { m.setNewlines true with cursor := c, journal := j }) :=
    ensurePending_of_error hpending h
  rw [peekWithinLine, peek_of_ensurePending_error (fun _ _ => .inr rfl) hensure]
  rfl

theorem exists_peekWithinLine_of_ok
    (h : o.scan m.filename m.cursor ⟨true, m.flags.operand⟩ m.journal = (.ok t, c, j)) :
    ∃ k, m.peekWithinLine room o = (.ok k, m.look t c j) := by
  have hpending : (m.setNewlines true).pending = [] := hp
  have hensure : (m.setNewlines true).ensurePending o =
      (.ok (), (m.setNewlines true).look t c j) := ensurePending_of_ok hpending h
  obtain ⟨k, hpeek⟩ : ∃ k, (m.setNewlines true).peek room o =
      (.ok k, (m.setNewlines true).look t c j) :=
    exists_peek_of_ensurePending (fun _ _ => .inr rfl) hensure
  refine ⟨k, ?_⟩
  rw [peekWithinLine, hpeek]
  rfl

end WithinLine

/-- The tape after an entry was scanned and taken, with nothing waiting. -/
def took (m : Tape source) (t : Token) (cursor : Cursor source) (journal : Journal) :
    Tape source :=
  { m with cursor, journal, consumed := ⟨t, cursor.line⟩ :: m.consumed, pending := [] }

theorem take_look {t : Token} (h : t.kind ≠ .newline ∨ m.flags.newlines = true) :
    (m.look t c j).take o = (.ok t.kind, m.took t c j) := by
  have hpass : (!Entry.isNewline ⟨t, c.line⟩ || m.flags.newlines) = true := by
    rw [Bool.or_eq_true, Bool.not_eq_true', Entry.isNewline, decide_eq_false_iff_not]
    exact h
  rw [take, look, takeFrom]
  exact if_pos hpass

theorem take_look_lineBreak {t : Token} (ht : t.kind = .newline) (hm : m.flags.newlines = false) :
    (m.look t c j).take o = (m.took t c j).scan o := by
  have hpass : ¬ (!Entry.isNewline ⟨t, c.line⟩ || m.flags.newlines) = true := by
    rw [hm, Entry.isNewline, decide_eq_true ht]
    decide
  rw [take, look, takeFrom]
  simp only
  rw [if_neg hpass, takeFrom]
  rfl

/-- Takes the next token after a look within the line. -/
def lookThenTake (room : Option Nat) (o : Observer) (m : Tape source) : Outcome source TokenKind :=
  match m.peekWithinLine room o with
  | (.error failure, m') => (.error failure, m')
  | (.ok _, m') => m'.take o

end Tape

/-- The comments before the line breaks among the entries. -/
def lineBreakComments (entries : List Entry) : List Text :=
  (entries.filter Entry.isNewline).flatMap fun e => e.token.comments

/-- The outcomes are the same, with cursors at the same place, and if they succeed, parsers see the
same but for the comments of the token: the second has these comments besides, in front. -/
structure TakenAlike {source : Source} (comments : List Text)
    (x y : Except Failure TokenKind × View source) : Prop where
  outcome_eq : x.1 = y.1
  cursor_eq : x.2.cursor = y.2.cursor
  view_eq : ∀ k, y.1 = .ok k → ∃ t, x.2.token = some t ∧
    y.2 = { x.2 with token := some (t.precededBy comments) }

/-- If they succeed, parsers see the same exactly if there are no such comments. -/
theorem TakenAlike.view_eq_iff {source : Source} {comments : List Text} {k : TokenKind}
    {x y : Except Failure TokenKind × View source} (h : TakenAlike comments x y)
    (hk : y.1 = .ok k) : x.2 = y.2 ↔ comments = [] := by
  obtain ⟨t, htoken, hview⟩ := h.view_eq k hk
  constructor
  · intro heq
    have hsame : some t = some (t.precededBy comments) := by
      rw [← htoken, heq, hview]
    have hcomments : t.comments = comments ++ t.comments :=
      congrArg (fun t => t.comments) (Option.some.inj hsame)
    exact List.append_left_eq_self.mp hcomments.symm
  · rintro rfl
    rw [hview, Token.precededBy_nil, ← htoken]

namespace Tape

variable {source : Source} {o : Observer} {m : Tape source}

theorem lineBreakComments_look_of_newline {t : Token} {c : Cursor source} {j : Journal}
    (ht : t.kind = .newline) : lineBreakComments (m.look t c j).pending = t.comments := by
  have hnewline : Entry.isNewline ⟨t, c.line⟩ = true := decide_eq_true ht
  rw [look, lineBreakComments, List.filter_cons_of_pos hnewline]
  exact List.append_nil _

theorem lineBreakComments_look_of_ne {t : Token} {c : Cursor source} {j : Journal}
    (ht : t.kind ≠ .newline) : lineBreakComments (m.look t c j).pending = [] := by
  have hplain : ¬ Entry.isNewline ⟨t, c.line⟩ = true := by
    rw [Entry.isNewline, decide_eq_true_eq]
    exact ht
  rw [look, lineBreakComments, List.filter_cons_of_neg hplain]
  rfl

/-- Behind a line break the next scan finds what a scan from before it finds, but for the comments
of the line break. -/
theorem takenAlike_behind_lineBreak (ho : o.LetsTokensPass) (hm : m.flags.newlines = false)
    {t : Token} {c : Cursor source} {j : Journal}
    (hnext : m.cursor.next ⟨true, m.flags.operand⟩ = (.ok t, c))
    (ht : t.kind = .newline)
    (hlook : o.scan m.filename m.cursor ⟨true, m.flags.operand⟩ m.journal = (.ok t, c, j)) :
    TakenAlike t.comments (((m.took t c j).scan o).1, ((m.took t c j).scan o).2.view)
      ((m.scan o).1, (m.scan o).2.view) := by
  have hflags : m.flags = ⟨false, m.flags.operand⟩ := by rw [← hm]
  have hleads := Cursor.leads_of_lineBreak hnext ht
  rcases hbehind : c.next m.flags with ⟨fault | t', c'⟩
  · obtain ⟨j₁, hscan⟩ := Observer.exists_scan_eq_error hbehind o m.filename j
    have halone := hleads.next_eq (hflags ▸ hbehind)
    rw [← hflags] at halone
    obtain ⟨j₂, hscan'⟩ := Observer.exists_scan_eq_error halone o m.filename m.journal
    -- the token of the line break is no error call, so the diagnostic is counted alike
    rw [Observer.errorCalls_of_scan_eq_ok hlook] at hscan
    rw [scan_of_error hscan', scan_of_error (m := m.took t c j) hscan]
    exact ⟨rfl, rfl, fun _ heq => nomatch heq⟩
  · obtain ⟨j₁, hscan⟩ := ho.exists_scan_eq hbehind m.filename j
    have halone := hleads.next_eq (hflags ▸ hbehind)
    rw [← hflags] at halone
    obtain ⟨j₂, hscan'⟩ := ho.exists_scan_eq halone m.filename m.journal
    rw [scan_of_ok hscan', scan_of_ok (m := m.took t c j) hscan]
    exact ⟨rfl, rfl, fun k _ => ⟨t', rfl, rfl⟩⟩

theorem takenAlike_lookThenTake (room : Option Nat) (ho : o.LetsTokensPass) (hp : m.pending = [])
    (hm : m.flags.newlines = false) :
    TakenAlike (lineBreakComments (m.peekWithinLine room o).2.pending)
      ((m.lookThenTake room o).1, (m.lookThenTake room o).2.view)
      ((m.take o).1, (m.take o).2.view) := by
  have hflags : m.flags = ⟨false, m.flags.operand⟩ := by rw [← hm]
  rw [take_of_pending_eq_nil o hp]
  rcases hnext : m.cursor.next ⟨true, m.flags.operand⟩ with ⟨fault | t, c⟩
  · have halone := Cursor.next_false_of_no_lineBreak hnext fun _ heq => nomatch heq
    rw [← hflags] at halone
    obtain ⟨j, hlook⟩ := Observer.exists_scan_eq_error hnext o m.filename m.journal
    obtain ⟨j', hscan⟩ := Observer.exists_scan_eq_error halone o m.filename m.journal
    rw [lookThenTake, peekWithinLine_of_error hp hlook, scan_of_error hscan]
    exact ⟨rfl, rfl, fun _ heq => nomatch heq⟩
  · obtain ⟨j, hlook⟩ := ho.exists_scan_eq hnext m.filename m.journal
    obtain ⟨k, hpeek⟩ : ∃ k, m.peekWithinLine room o = (.ok k, m.look t c j) :=
      exists_peekWithinLine_of_ok hp hlook
    rw [lookThenTake, hpeek]
    simp only
    by_cases ht : t.kind = .newline
    · rw [take_look_lineBreak ht hm, lineBreakComments_look_of_newline ht]
      exact takenAlike_behind_lineBreak ho hm hnext ht hlook
    · have halone := Cursor.next_false_of_no_lineBreak hnext fun t' heq => Except.ok.inj heq ▸ ht
      rw [← hflags] at halone
      obtain ⟨j', hscan⟩ := ho.exists_scan_eq halone m.filename m.journal
      rw [take_look (.inl ht), lineBreakComments_look_of_ne ht, scan_of_ok hscan]
      exact ⟨rfl, rfl, fun k _ => ⟨t, rfl, rfl⟩⟩

end Tape

/-! ## Feeds -/

namespace Feed

variable {source : Source} {o : Observer} {z : Feed source}

/-- Takes the next token after a look within the line. -/
def lookThenTake (o : Observer) (z : Feed source) : Outcome source TokenKind :=
  match z.peekWithinLine o with
  | (.error failure, z') => (.error failure, z')
  | (.ok _, z') => z'.take o

/-- The comments that a look within the line leaves with a line break. -/
def strandedComments (o : Observer) (z : Feed source) : List Text :=
  lineBreakComments (z.peekWithinLine o).2.ring.pending

theorem agrees_lookThenTake (o : Observer) {m : Tape source} (h : z.Represents m) :
    Agrees (z.lookThenTake o) (m.lookThenTake Tape.ringRoom o) := by
  have hpeek := agrees_peekWithinLine o h
  rw [lookThenTake, Tape.lookThenTake]
  generalize z.peekWithinLine o = x at hpeek ⊢
  generalize m.peekWithinLine Tape.ringRoom o = y at hpeek ⊢
  obtain ⟨outcome, z', m', hrep⟩ := hpeek
  cases outcome with
  | error failure => exact .intro _ _ _ hrep
  | ok k => exact agrees_take o hrep

/-- With line breaks as blanks and nothing waiting, to look within the line first changes nothing
about the next taking but the comments of its token.  It changes nothing at all exactly if no
comment stands before a line break there. -/
theorem lookThenTake_takenAlike (hz : z.Reachable o) (hnewlines : z.flags.newlines = false)
    (hempty : z.ring.lookahead = 0) (ho : o.LetsTokensPass) :
    TakenAlike (z.strandedComments o) ((z.lookThenTake o).1, (z.lookThenTake o).2.view)
        ((z.take o).1, (z.take o).2.view) ∧
      ∀ k, (z.take o).1 = .ok k →
        ((z.lookThenTake o).2.view = (z.take o).2.view ↔ z.strandedComments o = []) := by
  obtain ⟨m, _, hrep⟩ := hz.exists_tape
  have hpending : m.pending = [] :=
    List.length_eq_zero_iff.mp (hrep.ring.lookahead_eq.symm.trans hempty)
  have hmode : m.flags.newlines = false := hrep.flags ▸ hnewlines
  have halike := Tape.takenAlike_lookThenTake Tape.ringRoom ho hpending hmode
  have hlook := agrees_lookThenTake o hrep
  have htake := agrees_take o hrep
  have hpeek := agrees_peekWithinLine o hrep
  rw [← hlook.outcome_eq, ← hlook.represents.view_eq, ← htake.outcome_eq,
    ← htake.represents.view_eq, ← hpeek.represents.ring.pending_eq] at halike
  exact ⟨halike, fun k hk => halike.view_eq_iff hk⟩

/-- A name, a line comment, and a name on the next line. -/
def commentedLine : Source := ⟨"a // c\nb", by decide +kernel⟩

/-- The feed that has taken the first name. -/
def atLineComment : Feed commentedLine :=
  ((Feed.start commentedLine Source.anonymousName ⟨false, true⟩).respond .silent .take).2

theorem atLineComment_reachable : atLineComment.Reachable .silent := .respond _ (.start _ _)

theorem lookThenTake_takenAlike_atLineComment :
    atLineComment.Reachable .silent ∧ atLineComment.flags.newlines = false ∧
      atLineComment.ring.lookahead = 0 ∧ Observer.silent.LetsTokensPass ∧
      atLineComment.strandedComments .silent = [Text.ofString "// c"] ∧
      TakenAlike [Text.ofString "// c"]
        ((atLineComment.lookThenTake .silent).1, (atLineComment.lookThenTake .silent).2.view)
        ((atLineComment.take .silent).1, (atLineComment.take .silent).2.view) := by
  have hnewlines : atLineComment.flags.newlines = false := by decide +kernel
  have hempty : atLineComment.ring.lookahead = 0 := by decide +kernel
  have hpass : Observer.silent.LetsTokensPass := fun _ _ => rfl
  have hstranded : atLineComment.strandedComments .silent = [Text.ofString "// c"] := by
    decide +kernel
  obtain ⟨halike, _⟩ :=
    lookThenTake_takenAlike atLineComment_reachable hnewlines hempty hpass
  rw [hstranded] at halike
  exact ⟨atLineComment_reachable, hnewlines, hempty, hpass, hstranded, halike⟩

/-- The second name has the comment before it if it is taken at once, and no comment if it is taken
after a look within the line. -/
theorem lookThenTake_atLineComment_ne :
    atLineComment.Reachable .silent ∧ atLineComment.flags.newlines = false ∧
      atLineComment.ring.lookahead = 0 ∧ (atLineComment.take .silent).1.isOk = true ∧
      ((atLineComment.take .silent).2.token.map fun t => t.comments) =
        some [Text.ofString "// c"] ∧
      ((atLineComment.lookThenTake .silent).2.token.map fun t => t.comments) = some [] :=
  ⟨.respond _ (.start _ _), by decide +kernel, by decide +kernel, by decide +kernel,
    by decide +kernel, by decide +kernel⟩

end Feed

end ScriptScanner
