import ScriptScanner.Diagnostic
import ScriptScanner.Scan
set_option autoImplicit false

/-!
# Observers

A host may watch a scan with two callbacks, one for tokens and one for errors.  A callback is
told the number of its call and what happened, and may answer with a message: then the operation
that caused the event fails with that message, in place of whatever it would have returned or
failed with.

The journal holds what the callbacks were told, latest first.  A callback that is not there is
told nothing.
-/

namespace ScriptScanner

/-- Something that a callback is told. -/
inductive Event where
  | token (t : Token)
  | error (d : Diagnostic)
  deriving Repr, Inhabited

/-- The callbacks of a host. -/
structure Observer where
  onToken : Option (Nat → Token → Option Text)
  onError : Option (Nat → Diagnostic → Option Text)

/-- What the callbacks were told so far, latest first, and how often each was called. -/
structure Journal where
  events : List Event := []
  tokenCalls : Nat := 0
  errorCalls : Nat := 0
  deriving Repr, Inhabited

namespace Observer

/-- No callbacks at all. -/
def silent : Observer := ⟨none, none⟩

instance : Inhabited Observer := ⟨silent⟩

/-- Tells of a token; the answer is the message of the interruption, if there is one. -/
def tellToken (o : Observer) (t : Token) (j : Journal) : Option Text × Journal :=
  match o.onToken with
  | none => (none, j)
  | some callback =>
      (callback j.tokenCalls t,
        { j with events := .token t :: j.events, tokenCalls := j.tokenCalls + 1 })

/-- Tells of a diagnostic. -/
def tellError (o : Observer) (d : Diagnostic) (j : Journal) : Option Text × Journal :=
  match o.onError with
  | none => (none, j)
  | some callback =>
      (callback j.errorCalls d,
        { j with events := .error d :: j.events, errorCalls := j.errorCalls + 1 })

/-- The failure that a diagnostic becomes once it has been told. -/
def report (o : Observer) (d : Diagnostic) (j : Journal) : Failure × Journal :=
  match o.tellError d j with
  | (none, j') => (.diagnostic d, j')
  | (some m, j') => (.message m, j')

/-- The outcome of a scan once it has been told. -/
def watch (o : Observer) (outcome : Except Diagnostic Token) (j : Journal) :
    Except Failure Token × Journal :=
  match outcome with
  | .error d =>
      let (failure, j') := o.report d j
      (.error failure, j')
  | .ok t =>
      match o.tellToken t j with
      | (none, j') => (.ok t, j')
      | (some m, j') => (.error (.message m), j')

/-- One watched scan: the outcome, and cursor and journal after it. -/
def scan {source : Source} (o : Observer) (filename : Text) (c : Cursor source) (flags : Flags)
    (j : Journal) : Except Failure Token × Cursor source × Journal :=
  let (outcome, c') := c.next flags
  let (result, j') := o.watch (outcome.mapError fun m => m.diagnose filename) j
  (result, c', j')

/-- A watched scan that succeeds is the scan. -/
theorem next_eq_ok_of_scan {source : Source} {o : Observer} {filename : Text} {c c' : Cursor source}
    {flags : Flags} {j j' : Journal} {t : Token}
    (h : o.scan filename c flags j = (.ok t, c', j')) : c.next flags = (.ok t, c') := by
  rcases hn : c.next flags with ⟨outcome, c₁⟩
  simp only [scan, hn] at h
  cases outcome with
  | error m =>
    have hwatch : (o.watch (.error (m.diagnose filename)) j).1 = .ok t := congrArg Prod.fst h
    simp [watch] at hwatch
  | ok t' =>
    have hwatch : (o.watch (.ok t') j).1 = .ok t := congrArg Prod.fst h
    have hcursor : c₁ = c' := congrArg (fun result => result.2.1) h
    simp only [watch] at hwatch
    rcases ht : o.tellToken t' j with ⟨m, j₁⟩
    rw [ht] at hwatch
    cases m with
    | none => cases hwatch; rw [hcursor]
    | some m => cases hwatch

end Observer

end ScriptScanner
