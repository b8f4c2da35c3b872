import ScriptScanner.Proofs.Feed.Watched
set_option autoImplicit false

/-!
# What requests fail with

A request that fails does so for one of three reasons.  It scans, and the scan finds a fault of the
source; or the host is at fault, with a token that it demands, puts back or looks for; or a callback
has put its message in the place of the outcome.  A request scans from the cursor that it finds and
with the flags that it looks with, so of the first kind there is at most one failure.

No request gives the source another name, and every diagnostic has the name that the feed was given.
-/

namespace ScriptScanner

/-- The name of the kind that a request demands, if it demands one. -/
def Request.demanded? : Request → Option Text
  | .demand kindName => some kindName
  | _ => none

/-- The fault is one of the host's, and a missing token is the one that is demanded. -/
def Fault.IsOfHost (demanded? : Option Text) : Fault → Prop
  | missingToken expected => demanded? = some expected
  | lookaheadOverflow limit => limit = Ring.maxPending
  | emptyPushback => True
  | _ => False

namespace Feed

variable {source : Source} {α β : Type}

/-- What an operation may fail with that scans from the cursor with the flags, if with any, and
demands the kind of this name, if one. -/
inductive FailsBy (o : Observer) (c : Cursor source) (filename : Text) (flags? : Option Flags)
    (demanded? : Option Text) : Failure → Prop
  | scan {flags : Flags} {m : LocatedFault} {c' : Cursor source} (looks : flags? = some flags)
      (next_eq : c.next flags = (.error m, c')) :
      FailsBy o c filename flags? demanded? (.diagnostic (m.diagnose filename))
  | host {fault : Fault} (isOfHost : fault.IsOfHost demanded?) (location : Location) :
      FailsBy o c filename flags? demanded? (.diagnostic (fault.diagnose location filename))
  | callback {m : Text} (answers : o.Answers m) :
      FailsBy o c filename flags? demanded? (.message m)

/-- The operation keeps the name of the source, and fails with nothing else. -/
structure Blames (o : Observer) (c : Cursor source) (filename : Text) (flags? : Option Flags)
    (demanded? : Option Text) (x : Outcome source α) : Prop where
  filename_eq : x.2.filename = filename
  failsBy : ∀ failure, x.1 = .error failure → FailsBy o c filename flags? demanded? failure

variable {o : Observer} {c : Cursor source} {filename : Text} {flags? : Option Flags}
  {demanded? : Option Text}

/-! ## Steps -/

/-- What fails without a scan fails alike in an operation that scans. -/
theorem FailsBy.of_none {failure : Failure} (h : FailsBy o c filename none demanded? failure) :
    FailsBy o c filename flags? demanded? failure := by
  cases h with
  | scan looks next_eq => cases looks
  | host isOfHost location => exact .host isOfHost location
  | callback answers => exact .callback answers

theorem blames_ok (z : Feed source) (a : α) :
    Blames o c z.filename flags? demanded? (.ok a, z) := by
  refine ⟨rfl, fun failure h => ?_⟩
  cases h

theorem blames_fail (z : Feed source) {fault : Fault} (hfault : fault.IsOfHost demanded?) :
    Blames o c z.filename flags? demanded? (z.fail (α := α) o fault) := by
  refine ⟨rfl, fun failure h => ?_⟩
  have hreport : (o.report (fault.diagnose z.nextLocation z.filename) z.journal).1 = failure :=
    Except.error.inj h
  cases failure with
  | diagnostic d =>
    rw [Observer.eq_of_report_eq_diagnostic hreport]
    exact .host hfault z.nextLocation
  | message m => exact .callback (Observer.answers_of_report hreport)

/-- After a step that may scan comes one that does not. -/
theorem Blames.andThen {x : Outcome source α} {next : α → Feed source → Outcome source β}
    (h : Blames o c filename flags? demanded? x)
    (hnext : ∀ a z, Blames o c z.filename none demanded? (next a z)) :
    Blames o c filename flags? demanded? (andThen x next) := by
  obtain ⟨outcome, z⟩ := x
  obtain ⟨rfl, hfails⟩ := h
  cases outcome with
  | error failure =>
    refine ⟨rfl, fun failure' h => hfails failure' ?_⟩
    cases h
    rfl
  | ok a =>
    exact ⟨(hnext a z).filename_eq, fun failure h => ((hnext a z).failsBy failure h).of_none⟩

/-! ## Operations -/

theorem blames_scan (z : Feed source) :
    Blames o z.cursor z.filename (some z.flags) demanded? (z.scan o) := by
  rw [scan]
  split
  · next failure cursor journal hscan =>
    refine ⟨rfl, fun failure' h => ?_⟩
    cases h
    cases failure with
    | diagnostic d =>
      obtain ⟨m, hnext, rfl⟩ := Observer.exists_of_scan_eq_diagnostic hscan
      exact .scan rfl hnext
    | message m => exact .callback (Observer.answers_of_scan hscan)
  · next t cursor journal hscan =>
    exact blames_ok { z with cursor, journal, ring := z.ring.push ⟨t, cursor.line⟩ } t.kind

theorem blames_replay (z : Feed source) (waiting : Nat) :
    Blames o z.cursor z.filename (some z.flags) demanded? (z.replay o waiting) := by
  induction waiting generalizing z with
  | zero => exact blames_scan z
  | succ waiting ih =>
    rw [replay]
    split
    · exact blames_fail { z with ring := z.ring.forward } trivial
    · next e _ =>
      split
      · exact blames_ok { z with ring := z.ring.forward } e.token.kind
      · exact ih { z with ring := z.ring.forward }

theorem blames_take (z : Feed source) :
    Blames o z.cursor z.filename (some z.flags) demanded? (z.take o) :=
  blames_replay z z.ring.lookahead

theorem blames_putBack (z : Feed source) :
    Blames o c z.filename flags? demanded? (z.putBack o) := by
  rw [putBack]
  split
  · exact blames_fail z rfl
  · split
    · exact blames_fail z trivial
    · exact blames_ok { z with ring := z.ring.back } ()

theorem blames_accept (z : Feed source) (kindName : Text) :
    Blames o z.cursor z.filename (some z.flags) demanded? (z.accept o kindName) := by
  rw [accept_eq_andThen]
  refine (blames_take z).andThen fun kind y => ?_
  split
  · exact blames_ok y true
  · exact (blames_putBack y).andThen fun _ y' => blames_ok y' false

theorem blames_demand (z : Feed source) (kindName : Text) :
    Blames o z.cursor z.filename (some z.flags) (some kindName) (z.demand o kindName) := by
  rw [demand_eq_andThen]
  refine (blames_accept z kindName).andThen fun accepted y => ?_
  cases accepted with
  | false => exact blames_fail y rfl
  | true =>
    simp only
    split
    · next t _ => exact blames_ok y t
    · exact blames_fail y trivial

theorem blames_ensurePending (z : Feed source) :
    Blames o z.cursor z.filename (some z.flags) demanded? (z.ensurePending o) := by
  rw [ensurePending_eq_andThen]
  split
  · exact (blames_take z).andThen fun _ y => blames_putBack y
  · exact blames_ok z ()

theorem blames_peek (z : Feed source) :
    Blames o z.cursor z.filename (some z.flags) demanded? (z.peek o) := by
  have hbefore : z.beforePeek.cursor = z.cursor ∧ z.beforePeek.filename = z.filename ∧
      z.beforePeek.flags = z.flags := by
    rw [beforePeek]
    split <;> exact ⟨rfl, rfl, rfl⟩
  obtain ⟨hcursor, hfilename, hflags⟩ := hbefore
  have hensure : Blames o z.cursor z.filename (some z.flags) demanded?
      (z.beforePeek.ensurePending o) := by
    rw [← hcursor, ← hfilename, ← hflags]
    exact blames_ensurePending z.beforePeek
  rw [peek_eq_andThen]
  refine hensure.andThen fun _ y => ?_
  split
  · exact blames_fail y trivial
  · split
    · exact blames_ok y _
    · exact blames_ok y _

theorem blames_peekWithinLine (z : Feed source) :
    Blames o z.cursor z.filename (some { z.flags with newlines := true }) demanded?
      (z.peekWithinLine o) := by
  have hpeek : Blames o z.cursor z.filename (some { z.flags with newlines := true }) demanded?
      ((z.setNewlines true).peek o) := blames_peek (z.setNewlines true)
  exact ⟨hpeek.filename_eq, hpeek.failsBy⟩

/-! ## Requests and runs -/

theorem Blames.wrap {x : Outcome source α} (f : α → Answer)
    (h : Blames o c filename flags? demanded? x) :
    Blames o c filename flags? demanded? (Answer.wrap f x) := by
  obtain ⟨outcome, z⟩ := x
  refine ⟨h.filename_eq, fun failure hfailure => h.failsBy failure ?_⟩
  cases outcome with
  | error failure' => exact congrArg _ (Except.error.inj hfailure)
  | ok a => cases hfailure

/-- A request fails with the fault of its scan, with the host's own, or with the message of a
callback. -/
theorem blames_respond (z : Feed source) (r : Request) :
    Blames o z.cursor z.filename (r.looksWith? z.flags) r.demanded? (z.respond o r) := by
  cases r with
  | take => exact (blames_take z).wrap _
  | putBack => exact (blames_putBack z).wrap _
  | peek => exact (blames_peek z).wrap _
  | peekWithinLine => exact (blames_peekWithinLine z).wrap _
  | accept kindName => exact (blames_accept z kindName).wrap _
  | demand kindName => exact (blames_demand z kindName).wrap _
  | setNewlines newlines => exact blames_ok (z.setNewlines newlines) _
  | setOperand operand => exact blames_ok (z.setOperand operand) _

theorem filename_after (o : Observer) (z : Feed source) (requests : List Request) :
    (z.after o requests).filename = z.filename := by
  induction requests generalizing z with
  | nil => rfl
  | cons r rest ih => exact (ih _).trans (blames_respond z r).filename_eq

end Feed

end ScriptScanner
