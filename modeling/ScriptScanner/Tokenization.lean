import ScriptScanner.Observer
import ScriptScanner.OperandRule
set_option autoImplicit false

/-!
# Scanning a whole source

All tokens of a source, up to and with its end.  Before each scan the operand rule is asked.  The
record of a run holds the tokens up to a failure, what the rule was told, and what the observer
was told.
-/

namespace ScriptScanner

/-- How a source is scanned. -/
structure Settings where
  filename : Text := Source.anonymousName
  newlines : Bool := false
  rule : OperandRule := OperandRule.default
  observer : Observer := Observer.silent

/-- The record of a run over a whole source. -/
structure Tokenization where
  /-- The tokens in order; the last one is the end of the source unless the run failed. -/
  tokens : List Token
  failure : Option Failure
  /-- What the rule was told each time, in order. -/
  asked : List (Option Token)
  journal : Journal
  deriving Repr, Inhabited

namespace Tokenization

/-- A run that is under way: where it stands, and its record so far with the latest first. -/
structure Progress (source : Source) where
  cursor : Cursor source
  previous : Option Token := none
  tokens : List Token := []
  asked : List (Option Token) := []
  calls : Nat := 0
  journal : Journal := {}
  deriving Repr

/-- The record of a run that ends here. -/
def Progress.close {source : Source} (p : Progress source) (failure : Option Failure) :
    Tokenization :=
  { tokens := p.tokens.reverse, failure, asked := p.asked.reverse, journal := p.journal }

/-- The last token that is no line break, after one more token. -/
def significant (previous : Option Token) (t : Token) : Option Token :=
  if t.kind = .newline then previous else some t

/-- Goes on with a run until its end. -/
def Progress.run {source : Source} (s : Settings) (p : Progress source) : Tokenization :=
  let flags : Flags := { newlines := s.newlines, operand := s.rule p.calls p.previous }
  let asked := p.previous :: p.asked
  match _scanned : s.observer.scan s.filename p.cursor flags p.journal with
  | (.error failure, cursor, journal) =>
      Progress.close { p with cursor, asked, calls := p.calls + 1, journal } (some failure)
  | (.ok t, cursor, journal) =>
      let after : Progress source :=
        { cursor, previous := significant p.previous t, tokens := t :: p.tokens, asked,
          calls := p.calls + 1, journal }
      if t.kind = .endOfSource then after.close none else after.run s
  termination_by p.cursor.rest.length
  decreasing_by
    exact Cursor.length_rest_next_lt (Observer.next_eq_ok_of_scan _scanned) ‹_›

end Tokenization

/-- Scans a whole source. -/
def tokenize (source : Source) (s : Settings) : Tokenization :=
  Tokenization.Progress.run s { cursor := Cursor.start source }

end ScriptScanner
