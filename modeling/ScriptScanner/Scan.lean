import ScriptScanner.Lexeme.Word
import ScriptScanner.Lexeme.StringLiteral
import ScriptScanner.Lexeme.RegExpLiteral
import ScriptScanner.Lexeme.Punctuation
import ScriptScanner.Text.Quoted
import ScriptScanner.Trivia
set_option autoImplicit false

/-!
# Scanning one token

What kind of token stands at the front of a text is decided by its first unit, or its first two
for a number that begins with a point.  A slash is the one unit with two readings: where an
operand may stand it opens a regular expression, elsewhere it divides.  A scan skips the trivia
first and gives the comments in it to the token.

A scan that fails leaves the cursor where it got to, and nothing is skipped to recover: the host
decides how to go on.
-/

namespace ScriptScanner

/-- What the host tells the scanner before each scan. -/
structure Flags where
  /-- A line feed is a token of its own and not a blank. -/
  newlines : Bool
  /-- An operand may stand here, so a slash opens a regular expression. -/
  operand : Bool
  deriving DecidableEq, Repr, Inhabited

namespace Lexeme

/-- The end of the source. -/
def endOfSource : Lexeme := { kind := .endOfSource, content := .text [] }

/-- A line feed as a token. -/
def newline : Lexeme := { kind := .newline, content := .text [CodeUnit.lineFeed] }

/-- Reads what is neither a name nor a literal: an operator, or a line feed that is not skipped. -/
def readMark (t : Text) : Reading Lexeme :=
  match Punctuation.read? t with
  | some (x, n) => .found x n
  | none =>
      if t.head? = some CodeUnit.lineFeed then .found newline 1
      else .broken (.illegalCharacter t.firstCharacter.quoted) 0 0

/-- Reads the lexeme at the front of a text. -/
def read (operand : Bool) (t : Text) : Reading Lexeme :=
  match t with
  | [] => .found endOfSource 0
  | u :: _ =>
      if CharClass.nameStart.has u then Word.read t
      else if Numeral.startsHere t then Numeral.read t
      else if u = CodeUnit.doubleQuote || u = CodeUnit.singleQuote then StringLiteral.read t
      else if u = CodeUnit.slash && operand then RegExpLiteral.read t
      else readMark t

end Lexeme

namespace Cursor

variable {source : Source}

/-- Skips the trivia at the cursor and returns its comments. -/
def skipTrivia (c : Cursor source) (newlines : Bool) :
    Except LocatedFault (List Text) × Cursor source :=
  c.read (Trivia.read newlines c.rest)

/-- Scans the next token. -/
def next (c : Cursor source) (flags : Flags) : Except LocatedFault Token × Cursor source :=
  match c.skipTrivia flags.newlines with
  | (.error m, c₁) => (.error m, c₁)
  | (.ok comments, c₁) =>
      match c₁.token (Lexeme.read flags.operand c₁.rest) with
      | (.error m, c₂) => (.error m, c₂)
      | (.ok t, c₂) => (.ok (t.withComments comments), c₂)

end Cursor

/-! ## Progress -/

namespace Lexeme

/-- Every lexeme but the end of the source has a length, and there is text for it. -/
theorem pos_of_read_eq_found {operand : Bool} {t : Text} {x : Lexeme} {n : Nat}
    (h : read operand t = .found x n) (hx : x.kind ≠ .endOfSource) : 0 < n ∧ 0 < t.length := by
  cases t with
  | nil => cases h; exact absurd rfl hx
  | cons u rest =>
    refine ⟨?_, Nat.zero_lt_succ _⟩
    simp only [read] at h
    split at h
    · next hu => exact Word.pos_of_read_eq_found hu h
    · split at h
      · next hu => exact Numeral.pos_of_read_eq_found hu h
      · split at h
        · exact StringLiteral.pos_of_read_eq_found h
        · split at h
          · exact RegExpLiteral.pos_of_read_eq_found h
          · simp only [readMark] at h
            split at h
            · next hp => cases h; exact Punctuation.length_read?_pos hp
            · split at h
              · cases h; omega
              · cases h

end Lexeme

namespace Cursor

variable {source : Source}

/-- A token that does not end the source brings the cursor closer to its end. -/
theorem length_rest_next_lt {c c' : Cursor source} {flags : Flags} {t : Token}
    (h : c.next flags = (.ok t, c')) (ht : t.kind ≠ .endOfSource) :
    c'.rest.length < c.rest.length := by
  simp only [next] at h
  split at h
  · cases h
  · next comments c₁ htrivia =>
    have hle : c₁.rest.length ≤ c.rest.length := by
      simp only [skipTrivia, Cursor.read] at htrivia
      split at htrivia
      · cases htrivia; simp
      · cases htrivia
    split at h
    · cases h
    · next t' c₂ htoken =>
      obtain ⟨hok, rfl⟩ := Prod.mk.inj h
      have hkind : t'.kind ≠ .endOfSource := by
        intro hend
        apply ht
        rw [← Except.ok.inj hok, Token.withComments]
        split <;> exact hend
      simp only [Cursor.token] at htoken
      split at htoken
      · next x n hx =>
        cases htoken
        have := Lexeme.pos_of_read_eq_found hx hkind
        simp only [advanceBy_rest, List.length_drop]
        omega
      · cases htoken

end Cursor

end ScriptScanner
