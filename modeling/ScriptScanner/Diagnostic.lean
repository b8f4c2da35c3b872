import ScriptScanner.Diagnostic.Catalogue
import ScriptScanner.Diagnostic.Template
import ScriptScanner.Double.Whole
import ScriptScanner.Fault
set_option autoImplicit false

/-!
# Diagnostics

A diagnostic is a reported condition of the catalogue: a wording, the file and place it is about,
and the values that the wording was made from.  It belongs to the family of its condition's
category, or to no family; a host that asks for another family, or for a condition that the
catalogue does not have, is refused.

Faults are reported through the same catalogue: the template of the condition is filled with what
the fault carries.
-/

namespace ScriptScanner

/-- A reported condition. -/
structure Diagnostic where
  family : Option Category
  code : Code
  /-- The wording, without the place. -/
  detail : Text
  filename : Text
  location : Location
  context : Option Record
  deriving Repr, Inhabited

/-- Why no diagnostic can be made. -/
inductive Refusal where
  | unknownId (id : Text)
  | otherCategory (expected : Category) (id : Text)
  deriving DecidableEq, Repr, Inhabited

/-- The wording of a refusal. -/
def Refusal.message : Refusal → Text
  | unknownId id => Text.ofString "Unknown error ID: " ++ id
  | otherCategory expected id =>
      Text.ofString "Expected " ++ expected.name ++ Text.ofString " error ID, got: " ++ id

namespace Diagnostic

/-! ## Making diagnostics -/

/-- The diagnostic of a condition, worded by its template. -/
def ofCode (code : Code) (context : Record) (location : Location) (filename : Text) : Diagnostic :=
  let definition := code.definition
  { family := some definition.category, code, detail := Template.render definition.template context,
    filename, location, context := some context }

/-- The diagnostic of the condition with an identifier, worded by its template. -/
def create (id : Text) (context : Record) (location : Location) (filename : Text) :
    Except Refusal Diagnostic :=
  match Code.ofId? id with
  | none => .error (.unknownId id)
  | some code => .ok (ofCode code context location filename)

/-- A diagnostic in the host's own words, of a family that its condition belongs to, or of none. -/
def make (family : Option Category) (id detail : Text) (location : Location) (filename : Text)
    (context : Option Record) : Except Refusal Diagnostic :=
  match Code.ofId? id with
  | none => .error (.unknownId id)
  | some code =>
      match family with
      | none => .ok { family, code, detail, filename, location, context }
      | some expected =>
          if code.definition.category = expected then
            .ok { family, code, detail, filename, location, context }
          else .error (.otherCategory expected id)

/-! ## Showing diagnostics -/

/-- The name of the diagnostic's family. -/
def familyName (d : Diagnostic) : Text :=
  match d.family with
  | none => "ScanError"
  | some .lexer => "LexerError"
  | some .parse => "ParseError"
  | some .internal => "InternalError"

/-- The message: the wording, the file and the line. -/
def message (d : Diagnostic) : Text :=
  d.detail ++ Text.ofString " at " ++ d.filename ++ Text.ofString ":" ++
    Double.wholeText d.location.line

/-- What a host's own formatter gets to see. -/
structure Report where
  id : Text
  message : Text
  filename : Text
  location : Location
  context : Option Record
  deriving Repr, Inhabited

/-- The report of a diagnostic; its message has no place in it. -/
def report (d : Diagnostic) : Report :=
  { id := d.code.id, message := d.detail, filename := d.filename, location := d.location,
    context := d.context }

/-- The text of a diagnostic, as the host's formatter makes it or by default its message. -/
def format (d : Diagnostic) (formatter : Option (Report → Text)) : Text :=
  match formatter with
  | some f => f d.report
  | none => d.message

end Diagnostic

/-! ## What leaves an operation -/

/-- The way an operation fails: with a diagnostic, or with a bare message that a host's callback
chose. -/
inductive Failure where
  | diagnostic (d : Diagnostic)
  | message (m : Text)
  deriving Repr, Inhabited

/-- The text for a stream of diagnostics.  A problem of the source shows its file and line on a
line of their own. -/
def Failure.describe : Failure → Text
  | message m => m
  | diagnostic d =>
      if d.family = some .internal then Text.ofString "Internal error: " ++ d.detail
      else
        Text.ofString "Syntax error: " ++ d.detail ++ [CodeUnit.lineFeed] ++ d.filename ++
          Text.ofString ":" ++ Double.wholeText d.location.line

/-! ## Reporting faults -/

namespace Fault

/-- The condition that a fault is an instance of. -/
def code : Fault → Code
  | illegalCharacter _ => .illegalCharacter
  | unterminatedComment => .unterminatedComment
  | unterminatedString => .unterminatedString
  | unterminatedRegExp => .unterminatedRegExp
  | unterminatedClass => .unterminatedClass
  | missingExponent _ => .missingExponent
  | missingHexDigits _ => .missingHexDigits
  | missingToken _ => .missingToken
  | lookaheadOverflow _ => .lookaheadOverflow
  | emptyPushback => .emptyPushback

/-- The values that a fault gives to its wording. -/
def context : Fault → Record
  | illegalCharacter quoted => [("char", .text quoted)]
  | missingExponent numeral => [("text", .text numeral)]
  | missingHexDigits marker => [("prefix", .text marker)]
  | missingToken expected => [("expected", .text expected)]
  | lookaheadOverflow limit => [("limit", .number (Double.ofNat limit))]
  | _ => []

/-- The diagnostic of a fault. -/
def diagnose (f : Fault) (location : Location) (filename : Text) : Diagnostic :=
  Diagnostic.ofCode f.code f.context location filename

end Fault

/-- The diagnostic of a fault at its place. -/
def LocatedFault.diagnose (m : LocatedFault) (filename : Text) : Diagnostic :=
  m.fault.diagnose m.location filename

end ScriptScanner
