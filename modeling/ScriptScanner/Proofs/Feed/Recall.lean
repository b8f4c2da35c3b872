import ScriptScanner.Proofs.Feed.Representation
set_option autoImplicit false

/-!
# What a feed recalls

A tape without bounds remembers every token that was taken, and so would a feed be expected to: a
token that was taken can be put back, unless three wait already.  A feed is not quite such a tape.
Waiting line breaks take up slots in which older tokens were, and when they are dropped, the slots
are empty.

`lost` counts the entries at the far end of the consumed list that went that way.  A run of a feed
looks like the run of a tape without bounds exactly if the run never goes back so far that the
latest entry would be a lost one.
-/

namespace ScriptScanner.Tape

variable {source : Source} {m m' : Tape source} {lost : Nat}

/-! ## Losing entries -/

/-- The latest consumed entry, if there is one, is not among the `lost` oldest. -/
def InReach (m : Tape source) (lost : Nat) : Prop := lost = 0 ∨ lost < m.consumed.length

instance (m : Tape source) (lost : Nat) : Decidable (m.InReach lost) :=
  inferInstanceAs (Decidable (_ ∨ _))

/-- The number of lost entries once waiting line breaks are dropped: beside `n` waiting entries a
ring has slots for `4 - n` others. -/
def lostByDrop (m : Tape source) (lost : Nat) : Nat :=
  if m.pending.any Entry.isNewline then max lost (m.consumed.length - (4 - m.pending.length))
  else lost

/-- The number of lost entries after a request.  Only a look ahead while line breaks are skipped
drops waiting ones. -/
def lostAfter (m : Tape source) (lost : Nat) (r : Request) : Nat :=
  if r = .peek ∧ m.flags.newlines = false then m.lostByDrop lost else lost

/-- A run of a tape without bounds on which no lost entry ever becomes the latest. -/
def Recalls (o : Observer) (m : Tape source) (lost : Nat) : List Request → Prop
  | [] => True
  | r :: rest =>
      let m' := (m.respond none o r).2
      m'.InReach (m.lostAfter lost r) ∧ m'.Recalls o (m.lostAfter lost r) rest

/-- The tape without its lost entries. -/
def trim (m : Tape source) (lost : Nat) : Tape source :=
  { m with consumed := m.consumed.take (m.consumed.length - lost) }

theorem trim_zero (m : Tape source) : m.trim 0 = m := by
  simp [trim]

/-- What is added to the consumed entries is not lost. -/
theorem take_cons_sub (e : Entry) {consumed : List Entry} (h : lost ≤ consumed.length) :
    (e :: consumed).take ((e :: consumed).length - lost) =
      e :: consumed.take (consumed.length - lost) := by
  rw [List.length_cons, Nat.succ_sub h, List.take_succ_cons]

theorem le_length_of_inReach (h : m.InReach lost) : lost ≤ m.consumed.length := by
  rcases h with rfl | hlt
  · exact Nat.zero_le _
  · exact Nat.le_of_lt hlt

/-- A parser sees the difference between a tape and the tape without its lost entries exactly if the
latest entry is lost. -/
theorem view_trim_eq_iff (h : lost ≤ m.consumed.length) :
    (m.trim lost).view = m.view ↔ m.InReach lost := by
  constructor
  · intro hview
    have htoken : (m.trim lost).token = m.token := congrArg View.token hview
    by_cases hlt : lost < m.consumed.length
    · exact .inr hlt
    · have hall : m.consumed.length - lost = 0 := by omega
      rw [token, token, trim, hall, List.take_zero] at htoken
      cases hc : m.consumed with
      | nil => rw [hc, List.length_nil] at h; exact .inl (Nat.le_zero.mp h)
      | cons e rest => rw [hc] at htoken; cases htoken
  · rintro (rfl | hlt)
    · rw [trim_zero]
    · have hhead : (m.trim lost).consumed.head? = m.consumed.head? := by
        rw [trim, List.head?_take, if_neg (by omega)]
      have htoken : (m.trim lost).token = m.token := congrArg (Option.map Entry.token) hhead
      have hline : (m.trim lost).line = m.line := by rw [line, line, hhead]
      rw [view, view, isDone, isDone, htoken, hline]
      rfl

/-! ## Operations on a tape without its lost entries -/

/-- The first outcome is the second one on a tape without its lost entries, of which there are not
more than there are consumed ones. -/
inductive Trims {α : Type} (lost : Nat) : Outcome source α → Outcome source α → Prop
  | intro (outcome : Except Failure α) (m : Tape source) (le : lost ≤ m.consumed.length) :
      Trims lost (outcome, m.trim lost) (outcome, m)

theorem trims_fail {α : Type} (o : Observer) (fault : Fault) (h : lost ≤ m.consumed.length) :
    Trims (α := α) lost ((m.trim lost).fail o fault) (m.fail o fault) :=
  .intro _ { m with journal := (o.report (fault.diagnose m.nextLocation m.filename) m.journal).2 } h

theorem trims_scan (o : Observer) (h : lost ≤ m.consumed.length) :
    Trims lost ((m.trim lost).scan o) (m.scan o) := by
  have hname : (m.trim lost).filename = m.filename := rfl
  have hcursor : (m.trim lost).cursor = m.cursor := rfl
  have hflags : (m.trim lost).flags = m.flags := rfl
  have hjournal : (m.trim lost).journal = m.journal := rfl
  rw [scan, scan, hname, hcursor, hflags, hjournal]
  rcases o.scan m.filename m.cursor m.flags m.journal with ⟨outcome, cursor, journal⟩
  cases outcome with
  | error failure => exact .intro _ { m with cursor, journal } h
  | ok t =>
    have htake := take_cons_sub ⟨t, cursor.line⟩ h
    simp only [trim, ← htake]
    exact .intro _ { m with cursor, journal, consumed := ⟨t, cursor.line⟩ :: m.consumed }
      (Nat.le_succ_of_le h)

theorem trims_takeFrom (o : Observer) (pending : List Entry) (h : lost ≤ m.consumed.length) :
    Trims lost ((m.trim lost).takeFrom o pending) (m.takeFrom o pending) := by
  induction pending generalizing m with
  | nil => exact trims_scan (m := { m with pending := [] }) o h
  | cons e rest ih =>
    have hmove : (m.trim lost).move e rest = (m.move e rest).trim lost := by
      simp only [move, trim, take_cons_sub e h]
    have hmode : (m.trim lost).flags = m.flags := rfl
    have hle : lost ≤ (m.move e rest).consumed.length := Nat.le_succ_of_le h
    rw [takeFrom, takeFrom, hmove, hmode]
    split
    · exact .intro _ _ hle
    · exact ih hle

theorem trims_take (o : Observer) (h : lost ≤ m.consumed.length) :
    Trims lost ((m.trim lost).take o) (m.take o) :=
  trims_takeFrom o m.pending h

/-- A token that is taken is consumed. -/
theorem length_lt_of_takeFrom {o : Observer} {kind : TokenKind} (pending : List Entry)
    (h : m.takeFrom o pending = (.ok kind, m')) : m.consumed.length < m'.consumed.length := by
  induction pending generalizing m with
  | nil =>
    rw [takeFrom, scan] at h
    split at h
    · cases h
    · cases h
      exact Nat.lt_succ_self _
  | cons e rest ih =>
    rw [takeFrom] at h
    split at h
    · cases h
      exact Nat.lt_succ_self _
    · exact Nat.lt_of_succ_lt (ih h)

/-- What was taken last can be put back while it is not lost. -/
theorem trims_putBack (o : Observer) (h : m.InReach lost) :
    Trims lost ((m.trim lost).putBack o) (m.putBack o) := by
  have hle := le_length_of_inReach h
  have hpending : (m.trim lost).pending = m.pending := rfl
  rw [putBack, putBack, hpending]
  split
  · exact trims_fail o _ hle
  · cases hc : m.consumed with
    | nil =>
      have hnil : (m.trim lost).consumed = [] := by rw [trim, hc, List.take_nil]
      rw [hnil]
      exact trims_fail o _ hle
    | cons e rest =>
      rw [InReach, hc, List.length_cons] at h
      have hrest : lost ≤ rest.length := by omega
      have htrim : (m.trim lost).consumed = e :: rest.take (rest.length - lost) := by
        rw [trim, hc, take_cons_sub e hrest]
      rw [htrim]
      exact .intro _ { m with consumed := rest, pending := e :: m.pending } hrest

theorem trims_accept (o : Observer) (kindName : Text) (h : lost ≤ m.consumed.length) :
    Trims lost ((m.trim lost).accept o kindName) (m.accept o kindName) := by
  have htake := trims_take o h
  have hlt : ∀ kind m', m.take o = (.ok kind, m') → lost < m'.consumed.length :=
    fun _ _ hm => Nat.lt_of_le_of_lt h (length_lt_of_takeFrom m.pending hm)
  rw [accept, accept]
  generalize (m.trim lost).take o = x at htake ⊢
  generalize m.take o = y at htake hlt ⊢
  obtain ⟨outcome, m', hle⟩ := htake
  cases outcome with
  | error failure => exact .intro _ m' hle
  | ok kind =>
    simp only
    split
    · exact .intro _ m' hle
    · have hback := trims_putBack o (.inr (hlt kind m' rfl))
      generalize (m'.trim lost).putBack o = x at hback ⊢
      generalize m'.putBack o = y at hback ⊢
      obtain ⟨outcome, m'', hle'⟩ := hback
      cases outcome with
      | error failure => exact .intro _ m'' hle'
      | ok _ => exact .intro _ m'' hle'

theorem length_lt_of_accept {o : Observer} {kindName : Text}
    (h : m.accept o kindName = (.ok true, m')) : m.consumed.length < m'.consumed.length := by
  rw [accept] at h
  split at h
  · cases h
  · next htake =>
    split at h
    · cases h
      exact length_lt_of_takeFrom m.pending htake
    · split at h <;> cases h

theorem trims_demand (o : Observer) (kindName : Text) (h : lost ≤ m.consumed.length) :
    Trims lost ((m.trim lost).demand o kindName) (m.demand o kindName) := by
  have haccept := trims_accept o kindName h
  have hlt : ∀ m', m.accept o kindName = (.ok true, m') → lost < m'.consumed.length :=
    fun _ hm => Nat.lt_of_le_of_lt h (length_lt_of_accept hm)
  rw [demand, demand]
  generalize (m.trim lost).accept o kindName = x at haccept ⊢
  generalize m.accept o kindName = y at haccept hlt ⊢
  obtain ⟨outcome, m', hle⟩ := haccept
  cases outcome with
  | error failure => exact .intro _ m' hle
  | ok accepted =>
    cases accepted with
    | false => exact trims_fail o _ hle
    | true =>
      have hview := (view_trim_eq_iff hle).mpr (.inr (hlt m' rfl))
      have htoken : (m'.trim lost).token = m'.token := congrArg View.token hview
      simp only [htoken]
      cases m'.token with
      | none => exact trims_fail o _ hle
      | some t => exact .intro _ m' hle

/-! ## Looking ahead -/

theorem InReach.mono (h : m.InReach lost) (hle : m.consumed.length ≤ m'.consumed.length) :
    m'.InReach lost :=
  h.imp_right fun hlt => Nat.lt_of_lt_of_le hlt hle

theorem length_of_putBack {o : Observer} (h : m.putBack o = (.ok (), m')) :
    m.consumed.length = m'.consumed.length + 1 := by
  rw [putBack] at h
  split at h
  · cases h
  · split at h
    · cases h
    · next hc =>
      cases h
      rw [hc, List.length_cons]

theorem trims_ensurePending (o : Observer) (h : lost ≤ m.consumed.length) :
    Trims lost ((m.trim lost).ensurePending o) (m.ensurePending o) := by
  have htake := trims_take o h
  have hlt : ∀ kind m', m.take o = (.ok kind, m') → lost < m'.consumed.length :=
    fun _ _ hm => Nat.lt_of_le_of_lt h (length_lt_of_takeFrom m.pending hm)
  have hpending : (m.trim lost).pending = m.pending := rfl
  rw [ensurePending, ensurePending, hpending]
  split
  · generalize (m.trim lost).take o = x at htake ⊢
    generalize m.take o = y at htake hlt ⊢
    obtain ⟨outcome, m', hle⟩ := htake
    cases outcome with
    | error failure => exact .intro _ m' hle
    | ok kind => exact trims_putBack o (.inr (hlt kind m' rfl))
  · exact .intro _ m h

theorem length_le_of_ensurePending {o : Observer} (h : m.ensurePending o = (.ok (), m')) :
    m.consumed.length ≤ m'.consumed.length := by
  rw [ensurePending] at h
  split at h
  · split at h
    · cases h
    · next htake =>
      have hlt := length_lt_of_takeFrom m.pending htake
      have hback := length_of_putBack h
      omega
  · cases h
    exact Nat.le_refl _

/-- Without bounds nothing that was consumed is forgotten. -/
theorem consumed_dropPendingNewlines (m : Tape source) :
    (m.dropPendingNewlines none).consumed = m.consumed := by
  rw [dropPendingNewlines]
  exact ite_self _

theorem inReach_dropPendingNewlines (h : m.InReach lost) (hp : m.pending.length ≤ 3) :
    (m.dropPendingNewlines none).InReach (m.lostByDrop lost) := by
  rw [InReach, consumed_dropPendingNewlines, lostByDrop]
  rw [InReach] at h
  split <;> omega

/-- With the room of a ring, to drop line breaks is to lose the entries that `lostByDrop` counts. -/
theorem dropPendingNewlines_trim (h : lost ≤ m.consumed.length) :
    (m.trim lost).dropPendingNewlines ringRoom =
      (m.dropPendingNewlines none).trim (m.lostByDrop lost) := by
  have hany : (m.pending.filter fun e => !e.isNewline).length = m.pending.length ↔
      m.pending.any Entry.isNewline = false := by
    rw [List.length_filter_eq_length_iff, List.any_eq_false]
    exact forall₂_congr fun e _ => by rw [Bool.not_eq_true', Bool.not_eq_true]
  have hconsumed : ((m.trim lost).dropPendingNewlines ringRoom).consumed =
      m.consumed.take (m.consumed.length - m.lostByDrop lost) := by
    simp only [dropPendingNewlines, trim, lostByDrop, remembered, ringRoom, hany]
    cases m.pending.any Entry.isNewline with
    | false => rfl
    | true =>
      simp only [Bool.true_eq_false, if_false, if_true, List.take_take]
      congr 1
      omega
  have htrim : ((m.dropPendingNewlines none).trim (m.lostByDrop lost)).consumed =
      m.consumed.take (m.consumed.length - m.lostByDrop lost) := by
    rw [trim, consumed_dropPendingNewlines]
  have hrest : ∀ x y : Tape source, x.filename = y.filename → x.flags = y.flags →
      x.cursor = y.cursor → x.consumed = y.consumed → x.pending = y.pending →
      x.journal = y.journal → x = y := by
    rintro ⟨⟩ ⟨⟩ rfl rfl rfl rfl rfl rfl
    rfl
  exact hrest _ _ rfl rfl rfl (hconsumed.trans htrim.symm) rfl rfl

/-- The number of lost entries after a look ahead. -/
theorem trims_peek (o : Observer) (h : m.InReach lost) (hp : m.pending.length ≤ 3) :
    Trims (if m.flags.newlines then lost else m.lostByDrop lost)
      ((m.trim lost).peek ringRoom o) (m.peek none o) := by
  have hfirst : ∃ m₁ : Tape source, ∃ lost₁, m₁.InReach lost₁ ∧
      (if m.flags.newlines then lost else m.lostByDrop lost) = lost₁ ∧
      (if m.flags.newlines then m else m.dropPendingNewlines none) = m₁ ∧
      (if m.flags.newlines then m.trim lost else (m.trim lost).dropPendingNewlines ringRoom) =
        m₁.trim lost₁ := by
    split
    · exact ⟨m, lost, h, rfl, rfl, rfl⟩
    · exact ⟨_, _, inReach_dropPendingNewlines h hp, rfl, rfl,
        dropPendingNewlines_trim (le_length_of_inReach h)⟩
  obtain ⟨m₁, lost₁, hreach, hlost, hm₁, htrim₁⟩ := hfirst
  have hmode : (m.trim lost).flags = m.flags := rfl
  have hensure := trims_ensurePending o (le_length_of_inReach hreach)
  have hreach₂ : ∀ m₂, m₁.ensurePending o = (.ok (), m₂) → m₂.InReach lost₁ :=
    fun _ hm => hreach.mono (length_le_of_ensurePending hm)
  rw [peek, peek, hmode, hlost, hm₁, htrim₁]
  generalize (m₁.trim lost₁).ensurePending o = x at hensure ⊢
  generalize m₁.ensurePending o = y at hensure hreach₂ ⊢
  obtain ⟨outcome, m₂, hle⟩ := hensure
  cases outcome with
  | error failure => exact .intro _ m₂ hle
  | ok _ =>
    have hview := (view_trim_eq_iff hle).mpr (hreach₂ m₂ rfl)
    have hline : (m₂.trim lost₁).line = m₂.line := congrArg View.line hview
    have hpending : (m₂.trim lost₁).pending = m₂.pending := rfl
    have hmode₂ : (m₂.trim lost₁).flags = m₂.flags := rfl
    simp only [hpending, hmode₂, hline]
    split
    · exact trims_fail o _ hle
    · split
      · exact .intro _ m₂ hle
      · exact .intro _ m₂ hle

theorem trims_peekWithinLine (o : Observer) (h : m.InReach lost) (hp : m.pending.length ≤ 3) :
    Trims lost ((m.trim lost).peekWithinLine ringRoom o) (m.peekWithinLine none o) := by
  have hpeek := trims_peek (m := m.setNewlines true) o h hp
  have hset : (m.trim lost).setNewlines true = (m.setNewlines true).trim lost := rfl
  have hlost : (if (m.setNewlines true).flags.newlines then lost
      else (m.setNewlines true).lostByDrop lost) = lost := rfl
  rw [hlost] at hpeek
  rw [peekWithinLine, peekWithinLine, hset]
  generalize ((m.setNewlines true).trim lost).peek ringRoom o = x at hpeek ⊢
  generalize (m.setNewlines true).peek none o = y at hpeek ⊢
  obtain ⟨outcome, m', hle⟩ := hpeek
  exact .intro _ (m'.setNewlines m.flags.newlines) hle

/-! ## Runs -/

theorem Trims.wrap {α : Type} (f : α → Answer) {x y : Outcome source α} (h : Trims lost x y) :
    Trims lost (Answer.wrap f x) (Answer.wrap f y) := by
  obtain ⟨outcome, m, hle⟩ := h
  exact .intro _ m hle

/-- A request has the same outcome with and without the lost entries, while the latest is in reach.
-/
theorem trims_respond (o : Observer) (r : Request) (h : m.InReach lost)
    (hp : m.pending.length ≤ 3) :
    Trims (m.lostAfter lost r) ((m.trim lost).respond ringRoom o r) (m.respond none o r) := by
  have hle := le_length_of_inReach h
  cases r with
  | take => exact (trims_take o hle).wrap _
  | putBack => exact (trims_putBack o h).wrap _
  | peek =>
    have hpeek := trims_peek o h hp
    have hlost : m.lostAfter lost .peek =
        if m.flags.newlines then lost else m.lostByDrop lost := by
      rw [lostAfter]
      cases m.flags.newlines <;> simp
    rw [hlost]
    exact hpeek.wrap _
  | peekWithinLine => exact (trims_peekWithinLine o h hp).wrap _
  | accept kindName => exact (trims_accept o kindName hle).wrap _
  | demand kindName => exact (trims_demand o kindName hle).wrap _
  | setNewlines newlines => exact .intro _ (m.setNewlines newlines) hle
  | setOperand operand => exact .intro _ (m.setOperand operand) hle

end ScriptScanner.Tape

namespace ScriptScanner.Feed

variable {source : Source} {z : Feed source} {m : Tape source} {lost : Nat}

/-- From a feed that represents a tape without its lost entries, a run looks like the run of the
whole tape exactly as far as no lost entry becomes the latest. -/
theorem trace_eq_iff_recalls (o : Observer) (requests : List Request)
    (hrep : z.Represents (m.trim lost)) (h : m.InReach lost) :
    z.trace o requests = m.trace none o requests ↔ m.Recalls o lost requests := by
  induction requests generalizing z m lost with
  | nil => exact iff_of_true rfl trivial
  | cons r rest ih =>
    have hp : m.pending.length ≤ 3 := hrep.ring.length_le
    have hfeed := agrees_respond o r hrep
    have htape := Tape.trims_respond o r h hp
    rw [trace, Tape.trace, Tape.Recalls]
    generalize z.respond o r = x at hfeed ⊢
    generalize (m.trim lost).respond Tape.ringRoom o r = y at hfeed htape
    generalize m.respond none o r = w at htape ⊢
    generalize m.lostAfter lost r = lost' at htape ⊢
    obtain ⟨outcome, m', hle⟩ := htape
    obtain ⟨_, z', _, hrep'⟩ := hfeed
    have hview : z'.view = m'.view ↔ m'.InReach lost' := by
      rw [hrep'.view_eq, Tape.view_trim_eq_iff hle]
    constructor
    · intro htrace
      obtain ⟨hhead, htail⟩ := List.cons.inj htrace
      have hreach := hview.mp (Prod.mk.inj hhead).2
      exact ⟨hreach, (ih hrep' hreach).mp htail⟩
    · rintro ⟨hreach, hrest⟩
      have htail := (ih hrep' hreach).mpr hrest
      simp only [hview.mpr hreach, htail]

/-- Every run of a feed looks like the run of a tape with room for four entries.  It looks like the
run of a tape without bounds exactly if no entry that was lost to dropped line breaks ever becomes
the latest one. -/
theorem trace_start_eq_unbounded_iff (source : Source) (filename : Text) (flags : Flags)
    (o : Observer) (requests : List Request) :
    (Feed.start source filename flags).trace o requests =
        (Tape.start source filename flags).trace Tape.ringRoom o requests ∧
      ((Feed.start source filename flags).trace o requests =
          (Tape.start source filename flags).trace none o requests ↔
        (Tape.start source filename flags).Recalls o 0 requests) := by
  have hrep : (Feed.start source filename flags).Represents (Tape.start source filename flags) :=
    represents_start filename flags
  have htrim : (Feed.start source filename flags).Represents
      ((Tape.start source filename flags).trim 0) := by rwa [Tape.trim_zero]
  exact ⟨trace_eq_of_represents o requests hrep, trace_eq_iff_recalls o requests htrim (.inl rfl)⟩

/-- Two names on one line, three line breaks, and a third name. -/
def threeBreaks : Source := ⟨"a b\n\n\nc", by decide +kernel⟩

/-- Takes all up to the last line break, puts the three breaks back, looks beyond them and goes back
by the two names. -/
def backOverBreaks : List Request :=
  [.take, .take, .take, .take, .take, .putBack, .putBack, .putBack, .setNewlines false, .peek,
    .putBack, .putBack]

/-- With three waiting line breaks dropped, a feed has no token before the latest one, and refuses
to put back the one it does not have; a tape without bounds still has the first name. -/
theorem trace_backOverBreaks_ne :
    (Feed.start threeBreaks Source.anonymousName ⟨true, true⟩).trace .silent backOverBreaks ≠
      (Tape.start threeBreaks Source.anonymousName ⟨true, true⟩).trace none .silent
        backOverBreaks := by
  intro h
  have hseen := congrArg (List.map fun step => (step.1.isOk, step.2.token.map Token.start)) h
  revert hseen
  decide +kernel

end ScriptScanner.Feed
