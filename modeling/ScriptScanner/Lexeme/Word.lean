import ScriptScanner.Reading
import ScriptScanner.Text.CharClass
set_option autoImplicit false

/-!
# Words

A word is the longest run of units that may stand in a name.  It is a keyword if it is spelled
like one and an identifier otherwise.
-/

namespace ScriptScanner.Word

/-- The lexeme that a word makes. -/
def lexeme (word : Text) : Lexeme := { kind := TokenKind.ofWord word, content := .text word }

/-- Reads the word at the front of a text; where no name stands, the word is empty. -/
def read (t : Text) : Reading Lexeme :=
  let word := t.takeWhile CharClass.nameContinue.has
  .found (lexeme word) word.length

/-- At a unit that begins a name there is a word. -/
theorem pos_of_read_eq_found {u : CodeUnit} {t : Text} {x : Lexeme} {n : Nat}
    (hu : CharClass.nameStart.has u = true) (h : read (u :: t) = .found x n) : 0 < n := by
  have hc : CharClass.nameContinue.has u = true := by
    rw [CharClass.nameContinue, CharClass.has_union, hu, Bool.true_or]
  simp only [read, List.takeWhile_cons, hc, if_true] at h
  cases h
  simp

end ScriptScanner.Word
