import ScriptScanner.Proofs.Feed.Holds
import ScriptScanner.Proofs.Feed.Tape
set_option autoImplicit false

/-!
# Feeds as tapes

A feed represents a tape if its ring holds the two lists of the tape and all else is the same.  A
request to a feed then has the outcome that it has on a tape with room for four entries, and the
feed after it represents the tape after it.  So every run of a feed is a run of such a tape, and
whatever is to be shown of a feed can be shown on two lists.
-/

namespace ScriptScanner

/-- The room of a tape that a ring of four slots stands for. -/
def Tape.ringRoom : Option Nat := some 4

namespace Feed

variable {source : Source} {α : Type} {z : Feed source} {m : Tape source}

/-- The feed and the tape differ in their carrier only. -/
structure Represents (z : Feed source) (m : Tape source) : Prop where
  filename : z.filename = m.filename
  flags : z.flags = m.flags
  cursor : z.cursor = m.cursor
  journal : z.journal = m.journal
  ring : z.ring.Holds m.consumed m.pending

/-- The outcomes are equal, and the feed after the operation represents the tape after it. -/
inductive Agrees : Feed.Outcome source α → Tape.Outcome source α → Prop
  | intro (outcome : Except Failure α) (z : Feed source) (m : Tape source)
      (represents : z.Represents m) : Agrees (outcome, z) (outcome, m)

/-- Operations that agree end in a feed and a tape that belong together. -/
theorem Agrees.represents {x : Feed.Outcome source α} {y : Tape.Outcome source α}
    (h : Agrees x y) : x.2.Represents y.2 := by
  obtain ⟨_, _, _, hrep⟩ := h
  exact hrep

theorem Agrees.outcome_eq {x : Feed.Outcome source α} {y : Tape.Outcome source α}
    (h : Agrees x y) : x.1 = y.1 := by
  obtain ⟨_, _, _, _⟩ := h
  rfl

theorem represents_start (filename : Text) (flags : Flags) :
    (Feed.start source filename flags).Represents (Tape.start source filename flags) :=
  ⟨rfl, rfl, rfl, rfl, Ring.holds_empty⟩

/-! ## What is seen -/

namespace Represents

theorem token_eq (h : z.Represents m) : z.token = m.token := by
  rw [Feed.token, Tape.token, h.ring.latest_eq]

theorem line_eq (h : z.Represents m) : z.line = m.line := by
  rw [Feed.line, Tape.line, h.ring.latest_eq]

theorem isDone_eq (h : z.Represents m) : z.isDone = m.isDone := by
  rw [Feed.isDone, Tape.isDone, h.token_eq]

theorem view_eq (h : z.Represents m) : z.view = m.view := by
  rw [Feed.view, Tape.view, h.token_eq, h.line_eq, h.isDone_eq, h.cursor, h.flags]

theorem nextLocation_eq (h : z.Represents m) : z.nextLocation = m.nextLocation := by
  have hring := h.ring
  rw [Feed.nextLocation, Tape.nextLocation, hring.lookahead_eq]
  cases hp : m.pending with
  | nil =>
    rw [List.length_nil, if_neg (Nat.lt_irrefl 0), h.cursor]
  | cons e rest =>
    rw [hp] at hring
    rw [List.length_cons, if_pos (Nat.zero_lt_succ _), hring.ahead_one_eq]

end Represents

/-! ## Operations -/

theorem agrees_fail (o : Observer) (fault : Fault) (h : z.Represents m) :
    Agrees (α := α) (z.fail o fault) (m.fail o fault) := by
  rw [Feed.fail, Tape.fail, h.nextLocation_eq, h.filename, h.journal]
  rcases o.report (fault.diagnose m.nextLocation m.filename) m.journal with ⟨failure, journal⟩
  exact .intro _ _ _ ⟨rfl, h.flags, h.cursor, rfl, h.ring⟩

/-- With nothing waiting, a scan adds the same entry to both. -/
theorem agrees_scan (o : Observer) (h : z.Represents m) (hp : m.pending = []) :
    Agrees (z.scan o) (m.scan o) := by
  have hring : z.ring.Holds m.consumed [] := hp ▸ h.ring
  rw [Feed.scan, Tape.scan, h.filename, h.flags, h.cursor, h.journal]
  rcases o.scan m.filename m.cursor m.flags m.journal with ⟨outcome, cursor, journal⟩
  cases outcome with
  | error failure => exact .intro _ _ _ ⟨rfl, rfl, rfl, rfl, h.ring⟩
  | ok t =>
    refine .intro _ _ _ ⟨rfl, rfl, rfl, rfl, ?_⟩
    rw [hp]
    exact hring.push _

theorem agrees_replay (o : Observer) (pending : List Entry) (h : z.Represents m)
    (hp : m.pending = pending) :
    Agrees (z.replay o pending.length) (m.takeFrom o pending) := by
  induction pending generalizing z m with
  | nil =>
    rw [Tape.takeFrom]
    have hm : { m with pending := [] } = m := by rw [← hp]
    rw [hm]
    exact agrees_scan o h hp
  | cons e rest ih =>
    have hring := h.ring
    rw [hp] at hring
    have hstep : Represents { z with ring := z.ring.forward } (m.move e rest) :=
      ⟨h.filename, h.flags, h.cursor, h.journal, hring.forward⟩
    have hlatest : z.ring.forward.latest = some e := hring.forward.latest_eq
    have hmode : z.flags.newlines = m.flags.newlines := congrArg Flags.newlines h.flags
    rw [List.length_cons, Feed.replay, Tape.takeFrom]
    simp only [hlatest, hmode]
    split
    · exact .intro _ _ _ hstep
    · exact ih hstep rfl

theorem agrees_take (o : Observer) (h : z.Represents m) : Agrees (z.take o) (m.take o) := by
  rw [Feed.take, Tape.take, h.ring.lookahead_eq]
  exact agrees_replay o m.pending h rfl

theorem agrees_putBack (o : Observer) (h : z.Represents m) :
    Agrees (z.putBack o) (m.putBack o) := by
  have hring := h.ring
  rw [Feed.putBack, Tape.putBack, hring.lookahead_eq, hring.latest_eq]
  split
  · exact agrees_fail o _ h
  · next hlen =>
    cases hc : m.consumed with
    | nil => exact agrees_fail o _ h
    | cons e rest =>
      rw [hc] at hring
      have hlt : m.pending.length < Ring.maxPending := Nat.lt_of_le_of_ne hring.length_le hlen
      exact .intro _ _ _ ⟨h.filename, h.flags, h.cursor, h.journal, hring.back hlt⟩

theorem agrees_accept (o : Observer) (kindName : Text) (h : z.Represents m) :
    Agrees (z.accept o kindName) (m.accept o kindName) := by
  have htake := agrees_take o h
  rw [Feed.accept, Tape.accept]
  generalize z.take o = x at htake ⊢
  generalize m.take o = y at htake ⊢
  obtain ⟨outcome, z', m', hrep⟩ := htake
  cases outcome with
  | error failure => exact .intro _ _ _ hrep
  | ok kind =>
    simp only
    split
    · exact .intro _ _ _ hrep
    · have hback := agrees_putBack o hrep
      generalize z'.putBack o = x at hback ⊢
      generalize m'.putBack o = y at hback ⊢
      obtain ⟨outcome, z'', m'', hrep'⟩ := hback
      cases outcome with
      | error failure => exact .intro _ _ _ hrep'
      | ok _ => exact .intro _ _ _ hrep'

theorem agrees_demand (o : Observer) (kindName : Text) (h : z.Represents m) :
    Agrees (z.demand o kindName) (m.demand o kindName) := by
  have haccept := agrees_accept o kindName h
  rw [Feed.demand, Tape.demand]
  generalize z.accept o kindName = x at haccept ⊢
  generalize m.accept o kindName = y at haccept ⊢
  obtain ⟨outcome, z', m', hrep⟩ := haccept
  cases outcome with
  | error failure => exact .intro _ _ _ hrep
  | ok accepted =>
    cases accepted with
    | false => exact agrees_fail o _ hrep
    | true =>
      have htoken : z'.token = m'.token := hrep.token_eq
      simp only [htoken]
      cases m'.token with
      | none => exact agrees_fail o _ hrep
      | some t => exact .intro _ _ _ hrep

theorem represents_dropPendingNewlines (h : z.Represents m) :
    z.dropPendingNewlines.Represents (m.dropPendingNewlines Tape.ringRoom) :=
  ⟨h.filename, h.flags, h.cursor, h.journal, h.ring.keepPending fun e => !e.isNewline⟩

theorem agrees_ensurePending (o : Observer) (h : z.Represents m) :
    Agrees (z.ensurePending o) (m.ensurePending o) := by
  rw [Feed.ensurePending, Tape.ensurePending, h.ring.lookahead_eq]
  split
  · have htake := agrees_take o h
    generalize z.take o = x at htake ⊢
    generalize m.take o = y at htake ⊢
    obtain ⟨outcome, z', m', hrep⟩ := htake
    cases outcome with
    | error failure => exact .intro _ _ _ hrep
    | ok kind => exact agrees_putBack o hrep
  · exact .intro _ _ _ h

theorem agrees_peek (o : Observer) (h : z.Represents m) :
    Agrees (z.peek o) (m.peek Tape.ringRoom o) := by
  have hfirst : Represents (if z.flags.newlines then z else z.dropPendingNewlines)
      (if m.flags.newlines then m else m.dropPendingNewlines Tape.ringRoom) := by
    rw [h.flags]
    split
    · exact h
    · exact represents_dropPendingNewlines h
  have hensure := agrees_ensurePending o hfirst
  rw [Feed.peek, Tape.peek]
  generalize (if z.flags.newlines then z else z.dropPendingNewlines) = z₁ at hensure ⊢
  generalize (if m.flags.newlines then m else m.dropPendingNewlines Tape.ringRoom) = m₁
    at hensure ⊢
  have hwaits : ∀ m₂, m₁.ensurePending o = (.ok (), m₂) → m₂.pending ≠ [] := fun _ =>
    Tape.pending_ne_nil_of_ensurePending
  generalize z₁.ensurePending o = x at hensure ⊢
  generalize m₁.ensurePending o = y at hensure hwaits ⊢
  obtain ⟨outcome, z', m', hrep⟩ := hensure
  cases outcome with
  | error failure => exact .intro _ _ _ hrep
  | ok _ =>
    have hring := hrep.ring
    cases hp : m'.pending with
    | nil => exact absurd hp (hwaits m' rfl)
    | cons e rest =>
      rw [hp] at hring
      have hmode : z'.flags.newlines = m'.flags.newlines := congrArg Flags.newlines hrep.flags
      simp only [hring.ahead_one_eq, hp, List.head?_cons, hmode, hrep.line_eq]
      split
      · exact .intro _ _ _ hrep
      · exact .intro _ _ _ hrep

theorem represents_setNewlines (newlines : Bool) (h : z.Represents m) :
    (z.setNewlines newlines).Represents (m.setNewlines newlines) :=
  ⟨h.filename, congrArg (fun flags : Flags => { flags with newlines }) h.flags, h.cursor,
    h.journal, h.ring⟩

theorem represents_setOperand (operand : Bool) (h : z.Represents m) :
    (z.setOperand operand).Represents (m.setOperand operand) :=
  ⟨h.filename, congrArg (fun flags : Flags => { flags with operand }) h.flags, h.cursor,
    h.journal, h.ring⟩

theorem agrees_peekWithinLine (o : Observer) (h : z.Represents m) :
    Agrees (z.peekWithinLine o) (m.peekWithinLine Tape.ringRoom o) := by
  have hpeek := agrees_peek o (represents_setNewlines true h)
  rw [Feed.peekWithinLine, Tape.peekWithinLine, h.flags]
  generalize (z.setNewlines true).peek o = x at hpeek ⊢
  generalize (m.setNewlines true).peek Tape.ringRoom o = y at hpeek ⊢
  obtain ⟨outcome, z', m', hrep⟩ := hpeek
  exact .intro _ _ _ (represents_setNewlines m.flags.newlines hrep)

/-! ## Requests and runs -/

theorem Agrees.wrap (f : α → Answer) {x : Feed.Outcome source α} {y : Tape.Outcome source α}
    (h : Agrees x y) : Agrees (Answer.wrap f x) (Answer.wrap f y) := by
  obtain ⟨outcome, z', m', hrep⟩ := h
  exact .intro _ _ _ hrep

/-- Every request has one outcome on both sides. -/
theorem agrees_respond (o : Observer) (r : Request) (h : z.Represents m) :
    Agrees (z.respond o r) (m.respond Tape.ringRoom o r) := by
  cases r with
  | take => exact (agrees_take o h).wrap _
  | putBack => exact (agrees_putBack o h).wrap _
  | peek => exact (agrees_peek o h).wrap _
  | peekWithinLine => exact (agrees_peekWithinLine o h).wrap _
  | accept kindName => exact (agrees_accept o kindName h).wrap _
  | demand kindName => exact (agrees_demand o kindName h).wrap _
  | setNewlines newlines => exact .intro _ _ _ (represents_setNewlines newlines h)
  | setOperand operand => exact .intro _ _ _ (represents_setOperand operand h)

/-- A run of a feed looks like the same run of a tape with room for four entries. -/
theorem trace_eq_of_represents (o : Observer) (requests : List Request) (h : z.Represents m) :
    z.trace o requests = m.trace Tape.ringRoom o requests := by
  induction requests generalizing z m with
  | nil => rfl
  | cons r rest ih =>
    have hstep := agrees_respond o r h
    rw [Feed.trace, Tape.trace]
    generalize z.respond o r = x at hstep ⊢
    generalize m.respond Tape.ringRoom o r = y at hstep ⊢
    obtain ⟨outcome, z', m', hrep⟩ := hstep
    simp only [hrep.view_eq, ih hrep]

end Feed

namespace Tape

variable {source : Source}

/-- The tapes with room for four entries that a run may arrive at. -/
inductive Reachable (o : Observer) : Tape source → Prop
  | start (filename : Text) (flags : Flags) : Reachable o (Tape.start source filename flags)
  | respond {m : Tape source} (r : Request) :
      Reachable o m → Reachable o (m.respond ringRoom o r).2

end Tape

/-- Every feed that a run arrives at represents a tape that the run arrives at. -/
theorem Feed.Reachable.exists_tape {source : Source} {o : Observer} {z : Feed source}
    (h : z.Reachable o) : ∃ m : Tape source, m.Reachable o ∧ z.Represents m := by
  induction h with
  | start filename flags =>
    exact ⟨Tape.start source filename flags, .start filename flags,
      Feed.represents_start filename flags⟩
  | respond r _ ih =>
    obtain ⟨m, hm, hrep⟩ := ih
    exact ⟨(m.respond Tape.ringRoom o r).2, .respond r hm,
      (Feed.agrees_respond o r hrep).represents⟩

end ScriptScanner
