import ScriptScanner.Proofs.Feed.Recall
import ScriptScanner.Proofs.Feed.Rejection
set_option autoImplicit false

/-!
# The slots of a ring in use

Whatever a parser asks for, the four slots of a feed stay in order.  The waiting entries fill the
slots ahead, the consumed ones fill the slots behind without a gap, and from the oldest to the one
that waits last they cover ranges of the source one after the other.

So an operation that reads a slot finds an entry in it.  The internal failures, which stand for a
broken agreement between parser and feed, come of putting tokens back and of nothing else.
-/

namespace ScriptScanner

namespace Tape

variable {source : Source} {α β : Type} {o : Observer} {m m' : Tape source}

/-! ## Operations that do not fail internally -/

/-- If the operation fails, then not with an internal condition. -/
def Sound (o : Observer) (x : Outcome source α) : Prop :=
  ∀ code, o.FailsWith code x.1 x.2.journal → code.definition.category ≠ .internal

theorem Sound.ok {a : α} : Sound o ((.ok a, m) : Outcome source α) :=
  fun _ hcode => absurd hcode Observer.not_failsWith_ok

theorem Sound.error {failure : Failure} (h : Sound o ((.error failure, m) : Outcome source α)) :
    Sound o ((.error failure, m) : Outcome source β) := by
  rintro code ⟨d, j₀, hcode, houtcome, hj⟩
  exact h code ⟨d, j₀, hcode, congrArg Except.error (Except.error.inj houtcome), hj⟩

theorem Sound.wrap (f : α → Answer) {x : Outcome source α} (h : Sound o x) :
    Sound o (Answer.wrap f x) := by
  obtain ⟨outcome, m⟩ := x
  cases outcome with
  | error failure => exact h.error
  | ok a => exact .ok

theorem sound_fail (m : Tape source) {fault : Fault}
    (h : fault.code.definition.category ≠ .internal) : Sound o (m.fail (α := α) o fault) := by
  intro code hcode
  have hfails : o.FailsWith fault.code (m.fail (α := α) o fault).1
      (m.fail (α := α) o fault).2.journal :=
    ⟨fault.diagnose m.nextLocation m.filename, m.journal, rfl, rfl, rfl⟩
  rw [hcode.unique hfails]
  exact h

theorem sound_scan (o : Observer) (m : Tape source) : Sound o (m.scan o) := by
  rw [scan]
  split
  · next failure cursor journal hscan =>
    intro code hcode
    obtain ⟨fault, hnext, rfl⟩ := Observer.exists_of_scan_failsWith hscan hcode
    have hlexical : fault.fault.code.definition.category = .lexer :=
      Cursor.isLexical_of_next_eq_error hnext
    rw [hlexical]
    exact Category.noConfusion
  · exact .ok

theorem sound_takeFrom (o : Observer) (m : Tape source) (pending : List Entry) :
    Sound o (m.takeFrom o pending) := by
  induction pending generalizing m with
  | nil => exact sound_scan o _
  | cons e rest ih =>
    rw [takeFrom]
    split
    · exact .ok
    · exact ih _

theorem sound_take (o : Observer) (m : Tape source) : Sound o (m.take o) :=
  sound_takeFrom o m m.pending

/-- A rejection leaves no more entries waiting than a ring has room for. -/
theorem Rejects.length_pending_le (h : m.Rejects o m')
    (hp : m.pending.length ≤ Ring.maxPending) : m'.pending.length ≤ Ring.maxPending := by
  cases h with
  | waiting passed e rest hpending hpasses hstops =>
    rw [hpending, List.length_append] at hp
    exact Nat.le_trans (Nat.le_add_left _ _) hp
  | fresh hpasses t cursor journal hscan => exact (by decide : 1 ≤ Ring.maxPending)

/-- What was taken can be put back. -/
theorem exists_putBack_of_take {kind : TokenKind} (hp : m.pending.length ≤ Ring.maxPending)
    (h : m.take o = (.ok kind, m')) :
    ∃ e rest, m'.consumed = e :: rest ∧ m'.putBack o =
      (.ok (), { m' with consumed := rest, pending := e :: m'.pending }) := by
  obtain ⟨e, rest, hconsumed, hrejects⟩ := exists_rejects_of_takeFrom m.pending h
  have hlen : m'.pending.length + 1 ≤ Ring.maxPending := hrejects.length_pending_le hp
  refine ⟨e, rest, hconsumed, ?_⟩
  rw [putBack, if_neg (by omega), hconsumed]

theorem sound_accept (kindName : Text) (hp : m.pending.length ≤ Ring.maxPending) :
    Sound o (m.accept o kindName) := by
  have htake := sound_take o m
  rw [accept]
  split
  · next heq => exact (heq ▸ htake).error
  · next kind m₁ heq =>
    obtain ⟨e, rest, _, hback⟩ := exists_putBack_of_take hp heq
    split
    · exact .ok
    · rw [hback]
      exact .ok

/-- A token that was accepted is there. -/
theorem token_ne_none_of_accept {kindName : Text} (h : m.accept o kindName = (.ok true, m')) :
    m'.token ≠ none := by
  rw [accept] at h
  split at h
  · cases h
  · next htake =>
    split at h
    · cases h
      obtain ⟨e, rest, hconsumed, _⟩ := exists_rejects_of_takeFrom m.pending htake
      rw [token, hconsumed]
      exact Option.some_ne_none _
    · split at h <;> cases h

theorem sound_demand (kindName : Text) (hp : m.pending.length ≤ Ring.maxPending) :
    Sound o (m.demand o kindName) := by
  have haccept := sound_accept (o := o) kindName hp
  rw [demand]
  split
  · next heq => exact (heq ▸ haccept).error
  · exact sound_fail _ Category.noConfusion
  · next heq =>
    split
    · exact .ok
    · next hnone => exact absurd hnone (token_ne_none_of_accept heq)

theorem sound_ensurePending (o : Observer) (m : Tape source) : Sound o (m.ensurePending o) := by
  have htake := sound_take o m
  rw [ensurePending]
  split
  · next hlen =>
    split
    · next heq => exact (heq ▸ htake).error
    · next heq =>
      obtain ⟨e, rest, _, hback⟩ := exists_putBack_of_take (hlen ▸ Nat.zero_le _) heq
      rw [hback]
      exact .ok
  · exact .ok

theorem sound_peek (room : Option Nat) (o : Observer) (m : Tape source) :
    Sound o (m.peek room o) := by
  have hensure := sound_ensurePending o
    (if m.flags.newlines then m else m.dropPendingNewlines room)
  rw [peek]
  split
  · next heq => exact (heq ▸ hensure).error
  · next heq =>
    split
    · next hnone =>
      exact absurd (List.head?_eq_none_iff.mp hnone) (pending_ne_nil_of_ensurePending heq)
    · split
      · exact .ok
      · exact .ok

/-- Only to put a token back may fail internally. -/
theorem sound_respond {r : Request} (hr : r ≠ .putBack) (hp : m.pending.length ≤ Ring.maxPending) :
    Sound o (m.respond ringRoom o r) := by
  cases r with
  | take => exact (sound_take o m).wrap _
  | putBack => exact absurd rfl hr
  | peek => exact (sound_peek ringRoom o m).wrap _
  | peekWithinLine =>
    have hpeek : Sound o (m.peekWithinLine ringRoom o) := sound_peek ringRoom o (m.setNewlines true)
    exact hpeek.wrap _
  | accept kindName => exact (sound_accept kindName hp).wrap _
  | demand kindName => exact (sound_demand kindName hp).wrap _
  | setNewlines newlines => exact .ok
  | setOperand operand => exact .ok

end Tape

namespace Feed

variable {source : Source} {o : Observer} {z : Feed source}

/-! ## The slots -/

/-- The slots of the ring are in order, and so are the tokens in them. -/
structure SlotsInOrder (z : Feed source) : Prop where
  current_le : z.ring.current.val ≤ 3
  lookahead_le : z.ring.lookahead ≤ 3
  /-- Every waiting entry is there. -/
  ahead_isSome : ∀ k < z.ring.lookahead, (z.ring.ahead (k + 1)).isSome
  /-- Among the other slots, counted backward, none is filled behind an empty one. -/
  behind_isSome : ∀ j k, j ≤ k → k + z.ring.lookahead < 4 → (z.ring.behind k).isSome →
    (z.ring.behind j).isSome
  /-- There are no entries but the consumed and the waiting ones. -/
  mem_of_mem_slots : ∀ e, some e ∈ z.ring.slots.toList →
    e ∈ z.ring.consumed.reverse ++ z.ring.pending
  ordered : (z.ring.consumed.reverse ++ z.ring.pending).Pairwise fun e f =>
    e.token.stop ≤ f.token.start
  range : ∀ e, some e ∈ z.ring.slots.toList →
    0 ≤ e.token.start ∧ e.token.start ≤ e.token.stop ∧ e.token.stop ≤ z.cursor.offset
  lineAfter_eq : ∀ e, some e ∈ z.ring.slots.toList →
    e.lineAfter = source.text.lineAt e.token.stop.toNat

theorem Represents.slotsInOrder {m : Tape source} (hrep : z.Represents m)
    (hm : m.cursor.Follows m.history) : z.SlotsInOrder := by
  have hwindow := hrep.ring.window
  have hring := hrep.ring
  have hlook := hring.lookahead_eq
  have hview : z.ring.consumed.reverse ++ z.ring.pending =
      (m.consumed.take (4 - m.pending.length)).reverse ++ m.pending := by
    rw [hring.consumed_eq, hring.pending_eq]
  have hsublist : (z.ring.consumed.reverse ++ z.ring.pending).Sublist m.history := by
    rw [hview]
    exact ((List.take_sublist _ _).reverse).append_right _
  have hmem : ∀ e, some e ∈ z.ring.slots.toList →
      e ∈ z.ring.consumed.reverse ++ z.ring.pending := by
    intro e he
    rw [hview]
    exact hwindow.mem_of_mem_slots he
  refine ⟨Nat.le_of_lt_succ z.ring.current.isLt, hlook ▸ hring.length_le, ?_, ?_, hmem,
    hm.ordered.sublist hsublist, ?_, ?_⟩
  · intro k hk
    rw [hlook] at hk
    rw [hring.ahead_eq k hk, List.getElem?_eq_getElem hk]
    rfl
  · intro j k hjk hk hfilled
    rw [hlook] at hk
    rw [hring.behind_eq k hk] at hfilled
    obtain ⟨e, he⟩ := Option.isSome_iff_exists.mp hfilled
    have hlt : k < m.consumed.length := (List.getElem?_eq_some_iff.mp he).1
    rw [hring.behind_eq j (by omega), List.getElem?_eq_getElem (Nat.lt_of_le_of_lt hjk hlt)]
    rfl
  · intro e he
    have hin := hsublist.subset (hmem e he)
    obtain ⟨start, stop, hcovers, _⟩ := hm.isFrom e hin
    refine ⟨?_, ?_, hrep.cursor ▸ hm.stop_le e hin⟩
    · rw [hcovers.start_eq]
      exact Int.natCast_nonneg _
    · rw [hcovers.start_eq, hcovers.stop_eq]
      exact Int.ofNat_le.mpr hcovers.start_le
  · intro e he
    obtain ⟨start, stop, hcovers, hline⟩ := hm.isFrom e (hsublist.subset (hmem e he))
    rw [hline, hcovers.stop_eq, Int.toNat_natCast]

/-- Whatever a parser has asked for, failures included, the slots of the ring are in order, and only
to put a token back may fail internally. -/
theorem slotsInOrder_of_reachable (hz : z.Reachable o) :
    z.SlotsInOrder ∧ ∀ r, r ≠ .putBack → ∀ code,
      o.FailsWith code (z.respond o r).1 (z.respond o r).2.journal →
        code.definition.category ≠ .internal := by
  obtain ⟨m, hm, hrep⟩ := hz.exists_tape
  refine ⟨hrep.slotsInOrder ((Tape.invariant_follows source).of_reachable hm), ?_⟩
  intro r hr code hcode
  have hagrees := agrees_respond o r hrep
  rw [hagrees.outcome_eq, hagrees.represents.journal] at hcode
  exact Tape.sound_respond hr hrep.ring.length_le code hcode

/-- The feed of three line breaks after they were put back and dropped: the second name is the
latest, the slot behind it is empty, and the third name waits. -/
def breaksDropped : Feed threeBreaks :=
  (Feed.start threeBreaks Source.anonymousName ⟨true, true⟩).after .silent (backOverBreaks.take 10)

/-- There the slots are in order, and a number that is demanded is missed, which is no internal
failure. -/
theorem slotsInOrder_of_reachable_breaksDropped :
    breaksDropped.Reachable .silent ∧ breaksDropped.ring.lookahead = 1 ∧
      breaksDropped.ring.behind 1 = none ∧ breaksDropped.SlotsInOrder ∧
      Observer.silent.FailsWith .missingToken
        (breaksDropped.respond .silent (.demand TokenKind.number.name)).1
        (breaksDropped.respond .silent (.demand TokenKind.number.name)).2.journal ∧
      Code.missingToken.definition.category ≠ .internal := by
  have hreachable : breaksDropped.Reachable .silent := .after _ (.start _ _)
  obtain ⟨hslots, hsound⟩ := slotsInOrder_of_reachable hreachable
  have hsilent : Observer.silent.onError = none := rfl
  have hmissed : Observer.silent.FailsWith .missingToken
      (breaksDropped.respond .silent (.demand TokenKind.number.name)).1
      (breaksDropped.respond .silent (.demand TokenKind.number.name)).2.journal :=
    (Observer.failsWith_iff_of_silent hsilent).mpr (by decide +kernel)
  exact ⟨hreachable, by decide +kernel, by decide +kernel, hslots, hmissed,
    hsound (.demand TokenKind.number.name) Request.noConfusion _ hmissed⟩

end Feed

end ScriptScanner
