import ScriptScanner.Observer
import ScriptScanner.Feed.Ring
set_option autoImplicit false

/-!
# Feeding a parser

A parser takes tokens one at a time, may put up to three of them back, and looks at the next
token without taking it.  Tokens that were scanned are never scanned again: what is put back, and
what a look ahead had to scan, waits in a ring and is replayed from there.

The two flags say how the *next scan* is done.  A waiting token keeps the way it was scanned,
with one exception: while line breaks are not scanned, waiting line breaks are passed over.

Each operation returns its outcome together with the feed after it, whether it succeeds or fails;
a failure keeps whatever the operation had done until then.
-/

namespace ScriptScanner

/-- A scanned token, and the line of the cursor right after its scan. -/
structure Entry where
  token : Token
  lineAfter : Int
  deriving DecidableEq, Repr, Inhabited

/-- Whether an entry is a line break. -/
def Entry.isNewline (e : Entry) : Bool := e.token.kind = .newline

/-- The tokens of a source on their way to a parser. -/
structure Feed (source : Source) where
  filename : Text
  flags : Flags
  cursor : Cursor source
  ring : Ring Entry
  journal : Journal
  deriving Repr, Inhabited

/-- The outcome of an operation, and the feed after it. -/
abbrev Feed.Outcome (source : Source) (α : Type) := Except Failure α × Feed source

namespace Feed

variable {source : Source}

/-- A feed that has scanned nothing. -/
def start (source : Source) (filename : Text) (flags : Flags) : Feed source :=
  { filename, flags, cursor := Cursor.start source, ring := Ring.empty, journal := {} }

/-! ## What a parser sees -/

/-- The token that was taken last. -/
def token (z : Feed source) : Option Token := z.ring.latest.map Entry.token

/-- The line after that token, or the first line. -/
def line (z : Feed source) : Int := (z.ring.latest.map Entry.lineAfter).getD 1

/-- Whether the end of the source was taken. -/
def isDone (z : Feed source) : Bool := z.token.any fun t => t.kind = .endOfSource

/-- Where the next token begins, or the cursor while none is waiting. -/
def nextLocation (z : Feed source) : Location :=
  if 0 < z.ring.lookahead then
    match z.ring.ahead 1 with
    | some e => e.token.location
    | none => z.cursor.location
  else z.cursor.location

/-! ## Operations -/

/-- Fails for a reason of the host's; it is reported where the next token begins. -/
def fail {α : Type} (o : Observer) (fault : Fault) (z : Feed source) : Outcome source α :=
  let (failure, journal) := o.report (fault.diagnose z.nextLocation z.filename) z.journal
  (.error failure, { z with journal })

/-- Scans a token and takes it. -/
def scan (o : Observer) (z : Feed source) : Outcome source TokenKind :=
  match o.scan z.filename z.cursor z.flags z.journal with
  | (.error failure, cursor, journal) => (.error failure, { z with cursor, journal })
  | (.ok t, cursor, journal) =>
      (.ok t.kind,
        { z with cursor, journal, ring := z.ring.push ⟨t, cursor.line⟩ })

/-- Takes waiting entries up to the first that is not passed over, and scans if all are passed over.
`waiting` is the number of waiting entries. -/
def replay (o : Observer) (waiting : Nat) (z : Feed source) : Outcome source TokenKind :=
  match waiting with
  | 0 => z.scan o
  | waiting + 1 =>
      let z' := { z with ring := z.ring.forward }
      match z'.ring.latest with
      | none => z'.fail o .emptyPushback
      | some e =>
          if !e.isNewline || z.flags.newlines then (.ok e.token.kind, z') else z'.replay o waiting

/-- Takes the next token and returns its kind. -/
def take (o : Observer) (z : Feed source) : Outcome source TokenKind :=
  z.replay o z.ring.lookahead

/-- Puts the latest token back. -/
def putBack (o : Observer) (z : Feed source) : Outcome source Unit :=
  if z.ring.lookahead = Ring.maxPending then z.fail o (.lookaheadOverflow Ring.maxPending)
  else if z.ring.latest.isNone then z.fail o .emptyPushback
  else (.ok (), { z with ring := z.ring.back })

/-- Takes the next token if it is of the kind with this name, and says whether it was. -/
def accept (o : Observer) (kindName : Text) (z : Feed source) : Outcome source Bool :=
  match z.take o with
  | (.error failure, z') => (.error failure, z')
  | (.ok kind, z') =>
      if kind.name = kindName then (.ok true, z')
      else
        match z'.putBack o with
        | (.error failure, z'') => (.error failure, z'')
        | (.ok (), z'') => (.ok false, z'')

/-- Takes the next token, which has to be of the kind with this name, and returns it. -/
def demand (o : Observer) (kindName : Text) (z : Feed source) : Outcome source Token :=
  match z.accept o kindName with
  | (.error failure, z') => (.error failure, z')
  | (.ok false, z') => z'.fail o (.missingToken kindName)
  | (.ok true, z') =>
      match z'.token with
      | some t => (.ok t, z')
      | none => z'.fail o .emptyPushback

/-- Forgets waiting line breaks, which only a look ahead across lines has scanned. -/
def dropPendingNewlines (z : Feed source) : Feed source :=
  { z with ring := z.ring.keepPending fun e => !e.isNewline }

/-- Scans a token and puts it back at once, unless some token is waiting. -/
def ensurePending (o : Observer) (z : Feed source) : Outcome source Unit :=
  if z.ring.lookahead = 0 then
    match z.take o with
    | (.error failure, z') => (.error failure, z')
    | (.ok _, z') => z'.putBack o
  else (.ok (), z)

/-- The kind of the next token, which stays where it is.  While line breaks are scanned, a token on
another line than the latest one reads as a line break. -/
def peek (o : Observer) (z : Feed source) : Outcome source TokenKind :=
  let z₁ := if z.flags.newlines then z else z.dropPendingNewlines
  match z₁.ensurePending o with
  | (.error failure, z₂) => (.error failure, z₂)
  | (.ok (), z₂) =>
      match z₂.ring.ahead 1 with
      | none => z₂.fail o .emptyPushback
      | some e =>
          if z₂.flags.newlines && e.token.line ≠ z₂.line then (.ok .newline, z₂)
          else (.ok e.token.kind, z₂)

/-- Sets whether the next scan makes tokens of line breaks. -/
def setNewlines (z : Feed source) (newlines : Bool) : Feed source :=
  { z with flags := { z.flags with newlines } }

/-- Sets whether the next scan expects an operand. -/
def setOperand (z : Feed source) (operand : Bool) : Feed source :=
  { z with flags := { z.flags with operand } }

/-- Looks at the next token as if line breaks were scanned, for rules about tokens on one line. -/
def peekWithinLine (o : Observer) (z : Feed source) : Outcome source TokenKind :=
  let (outcome, z') := (z.setNewlines true).peek o
  (outcome, z'.setNewlines z.flags.newlines)

end Feed

end ScriptScanner
