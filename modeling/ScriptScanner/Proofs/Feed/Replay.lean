import ScriptScanner.Proofs.Feed.Peek
import ScriptScanner.Proofs.Feed.PutBack
import ScriptScanner.Proofs.Feed.Watched
set_option autoImplicit false

/-!
# A token that is put back is taken again

A take that succeeds leaves an entry that its flags do not pass over, and room to put it back:
waiting line breaks were passed over if line breaks are blanks, and a fresh scan finds none then.
So what was taken can be put back, and is found again in its slot, without a scan.
-/

namespace ScriptScanner

/-! ## Tapes -/

namespace Tape

variable {source : Source} {o : Observer} {m m' : Tape source}

/-- A scan leaves what waits as it is. -/
theorem pending_scan (o : Observer) (m : Tape source) : (m.scan o).2.pending = m.pending := by
  unfold scan
  split
  · rfl
  · rfl

/-- A take uses up one of the waiting entries at least. -/
theorem length_pending_takeFrom_le (o : Observer) (m : Tape source) (pending : List Entry) :
    (m.takeFrom o pending).2.pending.length ≤ pending.length - 1 := by
  induction pending generalizing m with
  | nil =>
    unfold takeFrom
    rw [pending_scan]
    exact Nat.le_refl 0
  | cons e rest ih =>
    unfold takeFrom
    split
    · exact Nat.le_refl rest.length
    · exact Nat.le_trans (ih _) (Nat.sub_le _ _)

/-- The latest entry on the tape has the kind, and the flags of the tape do not pass over it. -/
def Serves (m : Tape source) (kind : TokenKind) (e : Entry) : Prop :=
  m.consumed.head? = some e ∧ e.token.kind = kind ∧ (!e.isNewline || m.flags.newlines) = true

theorem serves_of_scan {kind : TokenKind} (h : m.scan o = (.ok kind, m')) :
    m'.flags = m.flags ∧ ∃ e, m'.Serves kind e := by
  unfold scan at h
  split at h
  · cases h
  · next t cursor journal hscan =>
    cases h
    refine ⟨rfl, ⟨t, cursor.line⟩, rfl, rfl, ?_⟩
    rw [Bool.or_eq_true, Bool.not_eq_true']
    exact (plain_of_scan hscan).imp_left decide_eq_false

/-- Whether it was scanned or had waited, the entry that a take comes to is not passed over. -/
theorem serves_of_takeFrom {kind : TokenKind} (pending : List Entry)
    (h : m.takeFrom o pending = (.ok kind, m')) : m'.flags = m.flags ∧ ∃ e, m'.Serves kind e := by
  induction pending generalizing m with
  | nil => exact serves_of_scan (m := { m with pending := [] }) h
  | cons e rest ih =>
    unfold takeFrom at h
    split at h
    · next hstops =>
      cases h
      exact ⟨rfl, e, rfl, rfl, hstops⟩
    · exact ih (m := m.move e rest) h

end Tape

/-! ## Feeds -/

namespace Feed

variable {source : Source} {o : Observer} {z y : Feed source} {kind : TokenKind} {e : Entry}

/-- What a take leaves that succeeds with the kind: the entry is the latest, the flags do not pass
over it, and there is room to put it back. -/
structure Served (y : Feed source) (kind : TokenKind) (e : Entry) : Prop where
  latest_eq : y.ring.latest = some e
  kind_eq : e.token.kind = kind
  stops : (!e.isNewline || y.flags.newlines) = true
  lookahead_le : y.ring.lookahead ≤ 2

/-- After a take there is room to put a token back, also if the take fails. -/
theorem lookahead_take_le (hz : z.Reachable o) : (z.take o).2.ring.lookahead ≤ 2 := by
  obtain ⟨m, _, hrep⟩ := hz.exists_tape
  have hused := Tape.length_pending_takeFrom_le o m m.pending
  have hlen : m.pending.length ≤ 3 := hrep.ring.length_le
  rw [(agrees_take o hrep).represents.ring.lookahead_eq]
  exact Nat.le_trans hused (Nat.sub_le_sub_right hlen 1)

theorem exists_served_of_take (hz : z.Reachable o) (h : z.take o = (.ok kind, y)) :
    y.flags = z.flags ∧ ∃ e, y.Served kind e := by
  have hroom := lookahead_take_le hz
  obtain ⟨m, _, hrep⟩ := hz.exists_tape
  have htake := agrees_take o hrep
  rw [h] at htake hroom
  generalize hm : m.take o = x at htake
  obtain ⟨_, _, m', hrep'⟩ := htake
  obtain ⟨hflags, e, hlatest, hkind, hstops⟩ := Tape.serves_of_takeFrom m.pending hm
  rw [hrep'.flags, hflags, hrep.flags]
  refine ⟨rfl, e, ?_, hkind, ?_, hroom⟩
  · rw [hrep'.ring.latest_eq, hlatest]
  · rw [hrep'.flags]
    exact hstops

namespace Served

/-- The feed after the entry was put back. -/
theorem putBack_eq (h : y.Served kind e) (o : Observer) :
    y.putBack o = (.ok (), { y with ring := y.ring.back }) := by
  have hroom : y.ring.lookahead ≠ 3 := by
    have hle := h.lookahead_le
    omega
  exact putBack_of_latest o hroom h.latest_eq

/-- From there the entry is taken in its slot, whoever observes and wherever the cursor is. -/
theorem take_back (h : y.Served kind e) (o : Observer) (c : Cursor source) (j : Journal) :
    Feed.take o { y with ring := y.ring.back, cursor := c, journal := j } =
      (.ok kind, { y with cursor := c, journal := j }) := by
  change Feed.replay o (y.ring.lookahead + 1) _ = _
  unfold replay
  simp only [Ring.forward_back, h.latest_eq]
  rw [if_pos h.stops, h.kind_eq]

/-- There is nothing to scan for. -/
theorem freshScan?_back (h : y.Served kind e) :
    Feed.freshScan? { y with ring := y.ring.back } .take = none := by
  have hpending : y.ring.back.pending = e :: y.ring.pending := Ring.pending_back h.latest_eq
  change Feed.scanFor? { y with ring := y.ring.back } y.flags = none
  unfold scanFor?
  rw [hpending, List.any_cons, h.stops, Bool.true_or]
  rfl

theorem ne_newline (h : y.Served kind e) (hblanks : y.flags.newlines = false) :
    kind ≠ .newline := by
  have hstops := h.stops
  rw [hblanks, Bool.or_false, Bool.not_eq_true'] at hstops
  rw [← h.kind_eq]
  exact of_decide_eq_false hstops

end Served

/-- A take leaves at most two tokens waiting, and comes to no line break while line breaks are
blanks.  What it takes can be put back, which leaves flags, cursor and journal as they are, and to
take it again leads back to the same feed with nothing to scan for: so it does under another
observer, which is told nothing, and wherever the cursor is. -/
theorem take_putBack_take (hz : z.Reachable o) :
    (z.take o).2.ring.lookahead ≤ 2 ∧
      (z.flags.newlines = false → (z.take o).1 ≠ .ok .newline) ∧
      ∀ kind y, z.take o = (.ok kind, y) → ∃ back, y.putBack o = (.ok (), back) ∧
        (back.flags = z.flags ∧ back.cursor = y.cursor ∧ back.journal = y.journal) ∧
        back.take o = (.ok kind, y) ∧ back.freshScan? .take = none ∧
        ∀ (o' : Observer) (c : Cursor source) (j : Journal),
          Feed.take o' { back with cursor := c, journal := j } =
            (.ok kind, { y with cursor := c, journal := j }) := by
  refine ⟨lookahead_take_le hz, ?_, ?_⟩
  · intro hblanks hnewline
    have htake : z.take o = (.ok .newline, (z.take o).2) := Prod.ext hnewline rfl
    obtain ⟨hflags, e, hserved⟩ := exists_served_of_take hz htake
    rw [← hflags] at hblanks
    exact hserved.ne_newline hblanks rfl
  · intro kind y h
    obtain ⟨hflags, e, hserved⟩ := exists_served_of_take hz h
    exact ⟨{ y with ring := y.ring.back }, hserved.putBack_eq o, ⟨hflags, rfl, rfl⟩,
      hserved.take_back o y.cursor y.journal, hserved.freshScan?_back, hserved.take_back⟩

/-- Where three line breaks wait and are blanks again, the name behind them is scanned, put back and
taken again from the ring. -/
theorem take_putBack_take_breaksWaiting :
    breaksWaiting.Reachable .silent ∧ breaksWaiting.ring.lookahead = 3 ∧
      breaksWaiting.flags.newlines = false ∧ (breaksWaiting.take .silent).1 ≠ .ok .newline ∧
      ∃ y back, breaksWaiting.take .silent = (.ok .identifier, y) ∧
        y.putBack .silent = (.ok (), back) ∧ back.take .silent = (.ok .identifier, y) := by
  have hreachable : breaksWaiting.Reachable .silent := .after _ (.start _ _)
  have hblanks : breaksWaiting.flags.newlines = false := by decide +kernel
  obtain ⟨-, hnewline, hagain⟩ := take_putBack_take hreachable
  have hkind : (breaksWaiting.take .silent).1.toOption = some .identifier := by decide +kernel
  rcases htake : breaksWaiting.take .silent with ⟨failure | kind, y⟩
  · rw [htake] at hkind
    cases hkind
  · rw [htake] at hkind hnewline
    cases hkind
    obtain ⟨back, hback, -, hsame, -⟩ := hagain _ y htake
    exact ⟨hreachable, by decide +kernel, hblanks, hnewline hblanks, y, back, rfl, hback, hsame⟩

end Feed

end ScriptScanner
