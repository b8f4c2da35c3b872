import ScriptScanner.Feed
set_option autoImplicit false

/-!
# Requests to a feed

A parser talks to a feed by requests: the six operations and the two assignments of a flag.  A run
is a list of requests, and it goes on after a failure with the feed that the failure left.  What
can be observed of a run is its trace: the outcome of every request, and what a parser sees of the
feed after it.

`Feed.Reachable` holds of the feeds that some run arrives at.
-/

namespace ScriptScanner

/-- What a parser may ask of a feed. -/
inductive Request where
  | take
  | putBack
  | peek
  | peekWithinLine
  | accept (kindName : Text)
  | demand (kindName : Text)
  | setNewlines (newlines : Bool)
  | setOperand (operand : Bool)
  deriving DecidableEq, Repr, Inhabited

/-- What a request returns if it succeeds. -/
inductive Answer where
  | kind (k : TokenKind)
  | token (t : Token)
  | accepted (b : Bool)
  | done
  deriving DecidableEq, Repr, Inhabited

/-- Wraps the result of an operation as an answer. -/
def Answer.wrap {α σ : Type} (f : α → Answer) (outcome : Except Failure α × σ) :
    Except Failure Answer × σ :=
  (outcome.1.map f, outcome.2)

/-- What a parser sees of a feed between two requests. -/
structure View (source : Source) where
  token : Option Token
  line : Int
  isDone : Bool
  cursor : Cursor source
  flags : Flags
  deriving DecidableEq, Repr

/-- The outcomes of the requests of a run, each with what is seen after it. -/
abbrev Trace (source : Source) := List (Except Failure Answer × View source)

namespace Feed

variable {source : Source}

/-- What a parser sees of the feed. -/
def view (z : Feed source) : View source :=
  { token := z.token, line := z.line, isDone := z.isDone, cursor := z.cursor, flags := z.flags }

/-- The outcome of a request, and the feed after it. -/
def respond (o : Observer) (z : Feed source) : Request → Outcome source Answer
  | .take => Answer.wrap .kind (z.take o)
  | .putBack => Answer.wrap (fun _ => .done) (z.putBack o)
  | .peek => Answer.wrap .kind (z.peek o)
  | .peekWithinLine => Answer.wrap .kind (z.peekWithinLine o)
  | .accept kindName => Answer.wrap .accepted (z.accept o kindName)
  | .demand kindName => Answer.wrap .token (z.demand o kindName)
  | .setNewlines newlines => (.ok .done, z.setNewlines newlines)
  | .setOperand operand => (.ok .done, z.setOperand operand)

/-- The trace of a run. -/
def trace (o : Observer) (z : Feed source) : List Request → Trace source
  | [] => []
  | r :: rest =>
      let (outcome, z') := z.respond o r
      (outcome, z'.view) :: z'.trace o rest

/-- The feeds that a run may arrive at. -/
inductive Reachable (o : Observer) : Feed source → Prop
  | start (filename : Text) (flags : Flags) : Reachable o (Feed.start source filename flags)
  | respond {z : Feed source} (r : Request) : Reachable o z → Reachable o (z.respond o r).2

/-- The feed after a run. -/
def after (o : Observer) (z : Feed source) (requests : List Request) : Feed source :=
  requests.foldl (fun z r => (z.respond o r).2) z

theorem Reachable.after {o : Observer} {z : Feed source} (requests : List Request)
    (h : z.Reachable o) : (z.after o requests).Reachable o := by
  induction requests generalizing z with
  | nil => exact h
  | cons r rest ih => exact ih (.respond r h)

end Feed

end ScriptScanner
