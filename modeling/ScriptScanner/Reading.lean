import ScriptScanner.Cursor
import ScriptScanner.Fault
import ScriptScanner.Token
set_option autoImplicit false

/-!
# Readings

A reader looks at the text ahead and says what stands at its front.  It either finds something of
some length, or finds it broken: then it names the fault, how far ahead the fault is reported,
and how far it got.  A reader knows nothing of offsets and lines; `Cursor.read` and
`Cursor.token` turn lengths into places, and move the cursor as far as the reader got in both
cases.
-/

namespace ScriptScanner

/-- What a reader makes of the text ahead. -/
inductive Reading (α : Type) where
  | found (value : α) (length : Nat)
  /-- The fault is reported `site` units ahead; `length` units were looked at. -/
  | broken (fault : Fault) (site : Nat) (length : Nat)
  deriving DecidableEq, Repr, Inhabited

namespace Reading

variable {α β : Type}

/-- Changes what was found. -/
def map (f : α → β) : Reading α → Reading β
  | found a n => found (f a) n
  | broken fault site n => broken fault site n

end Reading

namespace Cursor

variable {source : Source} {α : Type}

/-- The outcome of a reading at the cursor, and the cursor where the reader got to. -/
def read (c : Cursor source) (r : Reading α) : Except LocatedFault α × Cursor source :=
  match r with
  | .found a n => (.ok a, c.advanceBy n)
  | .broken fault site n => (.error ⟨fault, (c.advanceBy site).location⟩, c.advanceBy n)

/-- The outcome of reading a lexeme at the cursor: the token that covers what was read. -/
def token (c : Cursor source) (r : Reading Lexeme) : Except LocatedFault Token × Cursor source :=
  match r with
  | .found x n =>
      let after := c.advanceBy n
      (.ok (x.tokenAt c.location after.offset), after)
  | .broken fault site n => (.error ⟨fault, (c.advanceBy site).location⟩, c.advanceBy n)

end Cursor

end ScriptScanner
