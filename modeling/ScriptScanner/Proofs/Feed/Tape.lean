import ScriptScanner.Proofs.Feed.Request
set_option autoImplicit false

/-!
# Tapes

A tape does what a feed does, with two lists in place of a ring: the entries that were consumed,
latest first, and the entries that wait.  Taking moves the head of the waiting list to the
consumed one, and putting back moves it the other way, so nothing wraps around and nothing is
overwritten.

How long consumed entries are remembered is a parameter.  A tape without bounds, `room = none`,
remembers all of them.  A tape with room for `n` entries forgets some of them at one occasion
only: when it drops waiting line breaks, it keeps as many consumed entries as had room beside the
ones that waited before.
-/

namespace ScriptScanner

/-- The tokens of a source on their way to a parser, in two lists. -/
structure Tape (source : Source) where
  filename : Text
  flags : Flags
  cursor : Cursor source
  /-- The entries that were taken and not put back, latest first. -/
  consumed : List Entry
  /-- The entries that wait, in the order in which they will be taken. -/
  pending : List Entry
  journal : Journal
  deriving Repr, Inhabited

/-- The outcome of an operation, and the tape after it. -/
abbrev Tape.Outcome (source : Source) (α : Type) := Except Failure α × Tape source

namespace Tape

variable {source : Source}

/-- A tape on which nothing was scanned. -/
def start (source : Source) (filename : Text) (flags : Flags) : Tape source :=
  { filename, flags, cursor := Cursor.start source, consumed := [], pending := [], journal := {} }

/-! ## What a parser sees -/

/-- The token that was taken last. -/
def token (m : Tape source) : Option Token := m.consumed.head?.map Entry.token

/-- The line after that token, or the first line. -/
def line (m : Tape source) : Int := (m.consumed.head?.map Entry.lineAfter).getD 1

/-- Whether the end of the source was taken. -/
def isDone (m : Tape source) : Bool := m.token.any fun t => t.kind = .endOfSource

/-- Where the next token begins, or the cursor while none is waiting. -/
def nextLocation (m : Tape source) : Location :=
  match m.pending with
  | e :: _ => e.token.location
  | [] => m.cursor.location

/-- What a parser sees of the tape. -/
def view (m : Tape source) : View source :=
  { token := m.token, line := m.line, isDone := m.isDone, cursor := m.cursor, flags := m.flags }

/-! ## Operations -/

/-- Fails for a reason of the host's; it is reported where the next token begins. -/
def fail {α : Type} (o : Observer) (fault : Fault) (m : Tape source) : Outcome source α :=
  let (failure, journal) := o.report (fault.diagnose m.nextLocation m.filename) m.journal
  (.error failure, { m with journal })

/-- Scans a token and takes it. -/
def scan (o : Observer) (m : Tape source) : Outcome source TokenKind :=
  match o.scan m.filename m.cursor m.flags m.journal with
  | (.error failure, cursor, journal) => (.error failure, { m with cursor, journal })
  | (.ok t, cursor, journal) =>
      (.ok t.kind, { m with cursor, journal, consumed := ⟨t, cursor.line⟩ :: m.consumed })

/-- Moves the first waiting entry to the consumed ones. -/
def move (m : Tape source) (e : Entry) (rest : List Entry) : Tape source :=
  { m with consumed := e :: m.consumed, pending := rest }

/-- Takes entries of a waiting list up to the first that is not passed over, and scans if all are
passed over. -/
def takeFrom (o : Observer) (m : Tape source) : List Entry → Outcome source TokenKind
  | [] => ({ m with pending := [] }).scan o
  | e :: rest =>
      if !e.isNewline || m.flags.newlines then (.ok e.token.kind, m.move e rest)
      else (m.move e rest).takeFrom o rest

/-- Takes the next token and returns its kind. -/
def take (o : Observer) (m : Tape source) : Outcome source TokenKind := m.takeFrom o m.pending

/-- Puts the latest token back. -/
def putBack (o : Observer) (m : Tape source) : Outcome source Unit :=
  if m.pending.length = Ring.maxPending then m.fail o (.lookaheadOverflow Ring.maxPending)
  else
    match m.consumed with
    | [] => m.fail o .emptyPushback
    | e :: rest => (.ok (), { m with consumed := rest, pending := e :: m.pending })

/-- Takes the next token if it is of the kind with this name, and says whether it was. -/
def accept (o : Observer) (kindName : Text) (m : Tape source) : Outcome source Bool :=
  match m.take o with
  | (.error failure, m') => (.error failure, m')
  | (.ok kind, m') =>
      if kind.name = kindName then (.ok true, m')
      else
        match m'.putBack o with
        | (.error failure, m'') => (.error failure, m'')
        | (.ok (), m'') => (.ok false, m'')

/-- Takes the next token, which has to be of the kind with this name, and returns it. -/
def demand (o : Observer) (kindName : Text) (m : Tape source) : Outcome source Token :=
  match m.accept o kindName with
  | (.error failure, m') => (.error failure, m')
  | (.ok false, m') => m'.fail o (.missingToken kindName)
  | (.ok true, m') =>
      match m'.token with
      | some t => (.ok t, m')
      | none => m'.fail o .emptyPushback

/-- The consumed entries that are remembered beside a number of waiting ones. -/
def remembered (room : Option Nat) (waiting : Nat) (consumed : List Entry) : List Entry :=
  match room with
  | none => consumed
  | some n => consumed.take (n - waiting)

/-- Forgets waiting line breaks, and with them the consumed entries that had no room beside the
waiting ones. -/
def dropPendingNewlines (room : Option Nat) (m : Tape source) : Tape source :=
  let kept := m.pending.filter fun e => !e.isNewline
  { m with
    pending := kept
    consumed :=
      if kept.length = m.pending.length then m.consumed
      else remembered room m.pending.length m.consumed }

/-- Scans a token and puts it back at once, unless some token is waiting. -/
def ensurePending (o : Observer) (m : Tape source) : Outcome source Unit :=
  if m.pending.length = 0 then
    match m.take o with
    | (.error failure, m') => (.error failure, m')
    | (.ok _, m') => m'.putBack o
  else (.ok (), m)

/-- The kind of the next token, which stays where it is.  While line breaks are scanned, a token on
another line than the latest one reads as a line break. -/
def peek (room : Option Nat) (o : Observer) (m : Tape source) : Outcome source TokenKind :=
  let m₁ := if m.flags.newlines then m else m.dropPendingNewlines room
  match m₁.ensurePending o with
  | (.error failure, m₂) => (.error failure, m₂)
  | (.ok (), m₂) =>
      match m₂.pending.head? with
      | none => m₂.fail o .emptyPushback
      | some e =>
          if m₂.flags.newlines && e.token.line ≠ m₂.line then (.ok .newline, m₂)
          else (.ok e.token.kind, m₂)

/-- Sets whether the next scan makes tokens of line breaks. -/
def setNewlines (m : Tape source) (newlines : Bool) : Tape source :=
  { m with flags := { m.flags with newlines } }

/-- Sets whether the next scan expects an operand. -/
def setOperand (m : Tape source) (operand : Bool) : Tape source :=
  { m with flags := { m.flags with operand } }

/-- Looks at the next token as if line breaks were scanned. -/
def peekWithinLine (room : Option Nat) (o : Observer) (m : Tape source) :
    Outcome source TokenKind :=
  let (outcome, m') := (m.setNewlines true).peek room o
  (outcome, m'.setNewlines m.flags.newlines)

/-- Where putting back succeeds, something waits. -/
theorem pending_ne_nil_of_putBack {o : Observer} {m m' : Tape source}
    (h : m.putBack o = (.ok (), m')) : m'.pending ≠ [] := by
  unfold putBack at h
  split at h
  · cases h
  · split at h
    · cases h
    · cases h
      exact List.cons_ne_nil _ _

theorem pending_ne_nil_of_ensurePending {o : Observer} {m m' : Tape source}
    (h : m.ensurePending o = (.ok (), m')) : m'.pending ≠ [] := by
  unfold ensurePending at h
  split at h
  · split at h
    · cases h
    · exact pending_ne_nil_of_putBack h
  · next hlen =>
    cases h
    exact fun hnil => hlen (congrArg List.length hnil)

/-! ## Runs -/

/-- The outcome of a request, and the tape after it. -/
def respond (room : Option Nat) (o : Observer) (m : Tape source) :
    Request → Outcome source Answer
  | .take => Answer.wrap .kind (m.take o)
  | .putBack => Answer.wrap (fun _ => .done) (m.putBack o)
  | .peek => Answer.wrap .kind (m.peek room o)
  | .peekWithinLine => Answer.wrap .kind (m.peekWithinLine room o)
  | .accept kindName => Answer.wrap .accepted (m.accept o kindName)
  | .demand kindName => Answer.wrap .token (m.demand o kindName)
  | .setNewlines newlines => (.ok .done, m.setNewlines newlines)
  | .setOperand operand => (.ok .done, m.setOperand operand)

/-- The trace of a run. -/
def trace (room : Option Nat) (o : Observer) (m : Tape source) : List Request → Trace source
  | [] => []
  | r :: rest =>
      let (outcome, m') := m.respond room o r
      (outcome, m'.view) :: m'.trace room o rest

end Tape

end ScriptScanner
