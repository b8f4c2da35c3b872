import ScriptScanner.Reading
set_option autoImplicit false

/-!
# Operators in a source

The longest operator at the front of a text is found by growing it one unit at a time for as long
as the result is an operator.  An operator that makes compound assignments takes an equals sign
that follows it; the assignment then names the operator that it applies.
-/

namespace ScriptScanner.Punctuation

/-- Grows an operator with the units ahead, up to the greatest length of a spelling. -/
def grow : Nat → Text → Text → Text
  | 0, spelled, _ => spelled
  | _ + 1, spelled, [] => spelled
  | room + 1, spelled, u :: rest =>
      if (Operator.ofSpelling? (spelled ++ [u])).isSome then grow room (spelled ++ [u]) rest
      else spelled

/-- The longest operator at the front of a text, if one stands there. -/
def operator? (t : Text) : Option Operator :=
  Operator.ofSpelling? (grow Operator.maxLength [] t)

/-- The lexeme that an operator makes. -/
def lexeme (o : Operator) : Lexeme := { kind := .operator o, content := .text o.spelling }

/-- The lexeme that a compound assignment makes. -/
def compoundLexeme (o : Operator) : Lexeme :=
  { kind := .operator .assign, content := .text o.compoundSpelling,
    applies := some (.operator o) }

/-- Reads an operator, or the compound assignment that it makes. -/
def read? (t : Text) : Option (Lexeme × Nat) :=
  match operator? t with
  | none => none
  | some o =>
      let n := o.spelling.length
      if o.compounds && (t.drop n).head? = some CodeUnit.equals then some (compoundLexeme o, n + 1)
      else some (lexeme o, n)

/-- An operator has a length. -/
theorem length_read?_pos {t : Text} {x : Lexeme} {n : Nat} (h : read? t = some (x, n)) : 0 < n := by
  simp only [read?] at h
  split at h
  · cases h
  · next o _ =>
    have hn : 0 < o.spelling.length := List.length_pos_iff.mpr o.spelling_ne_nil
    split at h <;> (cases h; omega)

end ScriptScanner.Punctuation
