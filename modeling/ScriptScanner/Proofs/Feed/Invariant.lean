import ScriptScanner.Proofs.Feed.Representation
import ScriptScanner.Proofs.Observer
set_option autoImplicit false

/-!
# What every run keeps

Apart from its flags and its journal a tape has a cursor and a history: its entries in the order in
which they were scanned.  To take a waiting entry or to put one back leaves the history as it is.
There are three things that change it or the cursor: a scan that succeeds adds an entry, a scan that
fails moves the cursor alone, and to drop waiting line breaks removes entries.

So what the scan and the removal of entries keep, every request keeps, and with it every run.
-/

namespace ScriptScanner.Tape

variable {source : Source} {α β : Type} {m m' : Tape source}

/-- The entries of a tape in the order in which they were scanned. -/
def history (m : Tape source) : List Entry := m.consumed.reverse ++ m.pending

/-- A property of cursors and histories that holds at the beginning and is kept by scanning and
forgetting, and a property of the locations that may be reported meanwhile. -/
structure Invariant (holds : Cursor source → List Entry → Prop) (located : Location → Prop) :
    Prop where
  start : holds (Cursor.start source) []
  scanned {c c' : Cursor source} {flags : Flags} {t : Token} {entries : List Entry} :
    holds c entries → c.next flags = (.ok t, c') → holds c' (entries ++ [⟨t, c'.line⟩])
  failed {c c' : Cursor source} {flags : Flags} {fault : LocatedFault} {entries : List Entry} :
    holds c entries → c.next flags = (.error fault, c') →
      holds c' entries ∧ located fault.location
  forgotten {c : Cursor source} {entries kept : List Entry} :
    holds c entries → kept.Sublist entries → holds c kept
  located_cursor {c : Cursor source} {entries : List Entry} : holds c entries → located c.location
  located_entry {c : Cursor source} {entries : List Entry} {e : Entry} :
    holds c entries → e ∈ entries → located e.token.location

/-- The tape after an operation has the property, and so has the location of a diagnostic that the
operation fails with. -/
structure Kept (holds : Cursor source → List Entry → Prop) (located : Location → Prop)
    (x : Outcome source α) : Prop where
  holds : holds x.2.cursor x.2.history
  located : ∀ d, x.1 = .error (.diagnostic d) → located d.location

variable {holds : Cursor source → List Entry → Prop} {located : Location → Prop}

/-- An operation that succeeds reports no location. -/
theorem Kept.ok {a : α} (h : holds m.cursor m.history) :
    Kept holds located ((.ok a, m) : Outcome source α) := by
  refine ⟨h, fun d hd => ?_⟩
  cases hd

/-- A failure stays the same failure in an operation of another type. -/
theorem Kept.error {failure : Failure}
    (h : Kept holds located ((.error failure, m) : Outcome source α)) :
    Kept holds located ((.error failure, m) : Outcome source β) := by
  refine ⟨h.holds, fun d hd => h.located d ?_⟩
  cases hd
  rfl

namespace Invariant

variable (inv : Invariant holds located)

include inv

theorem fail (o : Observer) (fault : Fault) (h : holds m.cursor m.history) :
    Kept holds located (m.fail (α := α) o fault) := by
  refine ⟨h, fun d hd => ?_⟩
  have hreport : (o.report (fault.diagnose m.nextLocation m.filename) m.journal).1 =
      .diagnostic d := Except.error.inj hd
  rw [Observer.eq_of_report_eq_diagnostic hreport]
  change located m.nextLocation
  rw [nextLocation]
  split
  · next e rest hpending =>
    refine inv.located_entry h ?_
    rw [history, hpending]
    exact List.mem_append_right _ List.mem_cons_self
  · exact inv.located_cursor h

theorem scan (o : Observer) (hp : m.pending = []) (h : holds m.cursor m.history) :
    Kept holds located (m.scan o) := by
  have hhistory : m.history = m.consumed.reverse := by rw [history, hp, List.append_nil]
  rw [Tape.scan]
  split
  · next failure cursor journal hscan =>
    refine ⟨?_, ?_⟩
    · have hcursor := Observer.cursor_of_scan hscan
      rcases hnext : m.cursor.next m.flags with ⟨outcome, c⟩
      rw [hnext] at hcursor
      cases hcursor
      cases outcome with
      | error fault => exact (inv.failed h hnext).1
      | ok t =>
        -- a callback has put its message in the place of the token
        exact inv.forgotten (inv.scanned h hnext) (List.sublist_append_left _ _)
    · intro d hd
      cases hd
      obtain ⟨fault, hnext, rfl⟩ := Observer.exists_of_scan_eq_diagnostic hscan
      exact (inv.failed h hnext).2
  · next t cursor journal hscan =>
    refine .ok ?_
    have hnext := inv.scanned h (Observer.next_eq_ok_of_scan hscan)
    rw [history, hp, List.reverse_cons, List.append_nil, ← hhistory]
    exact hnext

theorem takeFrom (o : Observer) (pending : List Entry)
    (h : holds m.cursor (m.consumed.reverse ++ pending)) :
    Kept holds located (m.takeFrom o pending) := by
  induction pending generalizing m with
  | nil =>
    rw [Tape.takeFrom]
    exact inv.scan o rfl h
  | cons e rest ih =>
    have hmove : holds (m.move e rest).cursor ((m.move e rest).consumed.reverse ++ rest) := by
      rw [move, List.reverse_cons, List.append_assoc]
      exact h
    rw [Tape.takeFrom]
    split
    · exact .ok hmove
    · exact ih hmove

theorem take (o : Observer) (h : holds m.cursor m.history) : Kept holds located (m.take o) :=
  inv.takeFrom o m.pending h

theorem putBack (o : Observer) (h : holds m.cursor m.history) :
    Kept holds located (m.putBack o) := by
  rw [Tape.putBack]
  split
  · exact inv.fail o _ h
  · split
    · exact inv.fail o _ h
    · next e rest hconsumed =>
      refine .ok ?_
      rw [history, hconsumed, List.reverse_cons, List.append_assoc] at h
      exact h

theorem accept (o : Observer) (kindName : Text) (h : holds m.cursor m.history) :
    Kept holds located (m.accept o kindName) := by
  have htake := inv.take o h
  rw [Tape.accept]
  split
  · next heq => exact (heq ▸ htake).error
  · next kind m' heq =>
    rw [heq] at htake
    split
    · exact .ok htake.holds
    · have hback := inv.putBack o htake.holds
      split
      · next heq' => exact (heq' ▸ hback).error
      · next heq' => exact .ok (heq' ▸ hback).holds

theorem demand (o : Observer) (kindName : Text) (h : holds m.cursor m.history) :
    Kept holds located (m.demand o kindName) := by
  have haccept := inv.accept o kindName h
  rw [Tape.demand]
  split
  · next heq => exact (heq ▸ haccept).error
  · next heq => exact inv.fail o _ (heq ▸ haccept).holds
  · next heq =>
    have hafter := (heq ▸ haccept).holds
    split
    · exact .ok hafter
    · exact inv.fail o _ hafter

theorem dropPendingNewlines (room : Option Nat) (h : holds m.cursor m.history) :
    holds (m.dropPendingNewlines room).cursor (m.dropPendingNewlines room).history := by
  refine inv.forgotten h (List.Sublist.append (List.Sublist.reverse ?_) List.filter_sublist)
  rw [Tape.dropPendingNewlines]
  split
  · exact List.Sublist.refl _
  · unfold remembered
    split
    · exact List.Sublist.refl _
    · exact List.take_sublist _ _

theorem ensurePending (o : Observer) (h : holds m.cursor m.history) :
    Kept holds located (m.ensurePending o) := by
  have htake := inv.take o h
  rw [Tape.ensurePending]
  split
  · split
    · next heq => exact (heq ▸ htake).error
    · next heq => exact inv.putBack o (heq ▸ htake).holds
  · exact .ok h

theorem peek (room : Option Nat) (o : Observer) (h : holds m.cursor m.history) :
    Kept holds located (m.peek room o) := by
  have hfirst : ∀ m₁ : Tape source,
      m₁ = (if m.flags.newlines then m else m.dropPendingNewlines room) →
      holds m₁.cursor m₁.history := by
    rintro _ rfl
    split
    · exact h
    · exact inv.dropPendingNewlines room h
  have hensure := inv.ensurePending o (hfirst _ rfl)
  rw [Tape.peek]
  split
  · next heq => exact (heq ▸ hensure).error
  · next heq =>
    have hafter := (heq ▸ hensure).holds
    split
    · exact inv.fail o _ hafter
    · split
      · exact .ok hafter
      · exact .ok hafter

theorem peekWithinLine (room : Option Nat) (o : Observer) (h : holds m.cursor m.history) :
    Kept holds located (m.peekWithinLine room o) := by
  have hpeek := inv.peek (m := m.setNewlines true) room o h
  exact ⟨hpeek.holds, hpeek.located⟩

end Invariant

/-! ## Requests and runs -/

theorem Kept.wrap (f : α → Answer) {x : Outcome source α} (h : Kept holds located x) :
    Kept holds located (Answer.wrap f x) := by
  refine ⟨h.holds, fun d hd => h.located d ?_⟩
  obtain ⟨outcome, m⟩ := x
  cases outcome with
  | error failure => exact congrArg _ (Except.error.inj hd)
  | ok a => cases hd

namespace Invariant

variable (inv : Invariant holds located)

include inv

/-- Every request keeps what scanning and forgetting keep. -/
theorem respond (room : Option Nat) (o : Observer) (r : Request)
    (h : holds m.cursor m.history) : Kept holds located (m.respond room o r) := by
  cases r with
  | take => exact (inv.take o h).wrap _
  | putBack => exact (inv.putBack o h).wrap _
  | peek => exact (inv.peek room o h).wrap _
  | peekWithinLine => exact (inv.peekWithinLine room o h).wrap _
  | accept kindName => exact (inv.accept o kindName h).wrap _
  | demand kindName => exact (inv.demand o kindName h).wrap _
  | setNewlines newlines => exact .ok h
  | setOperand operand => exact .ok h

theorem of_reachable {o : Observer} (h : m.Reachable o) : holds m.cursor m.history := by
  induction h with
  | start filename flags => exact inv.start
  | respond r _ ih => exact (inv.respond ringRoom o r ih).holds

end Invariant

end ScriptScanner.Tape
