import ScriptScanner.Reading
import ScriptScanner.Text.CharClass
set_option autoImplicit false

/-!
# Trivia

Between tokens stand blanks and comments.  Blanks are inline white space and, unless line breaks
are scanned as tokens, line feeds.  A block comment ends at the first closing mark after its
opening mark, so the two marks cannot share a star; a line comment ends before the carriage
return or line feed that ends its line.  Comments are kept, in order and as written.
-/

namespace ScriptScanner.Trivia

/-- Whether a unit separates tokens without a meaning of its own. -/
def isBlank (newlines : Bool) (u : CodeUnit) : Bool :=
  CharClass.inlineSpace.has u || (u = CodeUnit.lineFeed && !newlines)

/-- Whether a unit ends a line comment. -/
def endsLine (u : CodeUnit) : Bool := u = CodeUnit.lineFeed || u = CodeUnit.carriageReturn

/-- What stands where a comment may begin. -/
inductive Comment where
  | absent
  | closed (length : Nat)
  | unclosed
  deriving DecidableEq, Repr, Inhabited

/-- The number of units before the first closing mark of a block comment, added to `passed`. -/
def closingMark? (passed : Nat) : Text → Option Nat
  | [] => none
  | u :: rest =>
      if u = CodeUnit.star && rest.head? = some CodeUnit.slash then some passed
      else closingMark? (passed + 1) rest

/-- The comment at the front of a text. -/
def comment : Text → Comment
  | u :: v :: rest =>
      if u = CodeUnit.slash then
        if v = CodeUnit.star then
          match closingMark? 0 rest with
          | some n => .closed (n + 4)
          | none => .unclosed
        else if v = CodeUnit.slash then
          .closed ((rest.takeWhile fun w => !endsLine w).length + 2)
        else .absent
      else .absent
  | _ => .absent

/-- A comment has a length, and there is text for it. -/
theorem comment_closed_pos {t : Text} {n : Nat} (h : comment t = .closed n) :
    0 < n ∧ 0 < t.length := by
  unfold comment at h
  split at h
  · split at h
    · split at h
      · split at h
        · cases h; exact ⟨by omega, by simp⟩
        · cases h
      · split at h
        · cases h; exact ⟨by omega, by simp⟩
        · cases h
    · cases h
  · cases h

/-- Reads blanks and comments.  `comments` are the ones so far, latest first, and `passed` is the
number of units before this point. -/
def readFrom (newlines : Bool) (comments : List Text) (passed : Nat) (t : Text) :
    Reading (List Text) :=
  let blanks := (t.takeWhile (isBlank newlines)).length
  let ahead := t.dropWhile (isBlank newlines)
  match _closes : comment ahead with
  | .absent => .found comments.reverse (passed + blanks)
  | .closed n =>
      readFrom newlines (ahead.take n :: comments) (passed + blanks + n) (ahead.drop n)
  | .unclosed =>
      .broken .unterminatedComment (passed + blanks) (passed + blanks + ahead.length)
  termination_by t.length
  decreasing_by
    have h := comment_closed_pos _closes
    have hle := (List.dropWhile_suffix (l := t) (isBlank newlines)).length_le
    simp only [ahead, List.length_drop] at h ⊢
    omega

/-- Reads all blanks and comments at the front of a text. -/
def read (newlines : Bool) (t : Text) : Reading (List Text) := readFrom newlines [] 0 t

end ScriptScanner.Trivia
