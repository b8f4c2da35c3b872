import ScriptScanner.Reading
import ScriptScanner.Text.CharClass
set_option autoImplicit false

/-!
# Regular expression literals

A regular expression runs from a slash to the next slash on its line that stands neither after a
backslash nor in a class, and takes the flags that follow.  A class runs from an opening bracket
to the next closing one that stands after no backslash.  The body is kept as written: escapes are
for whoever reads the expression.
-/

namespace ScriptScanner.RegExpLiteral

/-- The fault of a regular expression that ends too early, inside a class or outside. -/
def endFault (inClass : Bool) : Fault :=
  if inClass then .unterminatedClass else .unterminatedRegExp

/-- Looks for the closing slash.  What is found is the length of the body; `passed` counts the units
before this point, the opening slash among them. -/
def readBody (inClass : Bool) (passed : Nat) : Text → Reading Nat
  | [] => .broken (endFault inClass) 0 passed
  | u :: rest =>
      if u = CodeUnit.lineFeed then .broken (endFault inClass) 0 passed
      else if u = CodeUnit.backslash then
        match rest with
        | [] => .broken (endFault inClass) 0 (passed + 1)
        | v :: rest' =>
            if v = CodeUnit.lineFeed then .broken (endFault inClass) 0 (passed + 1)
            else readBody inClass (passed + 2) rest'
      else if inClass then
        if u = CodeUnit.rightBracket then readBody false (passed + 1) rest
        else readBody true (passed + 1) rest
      else if u = CodeUnit.slash then .found (passed - 1) (passed + 1)
      else if u = CodeUnit.leftBracket then readBody true (passed + 1) rest
      else readBody false (passed + 1) rest

/-- A regular expression that is found ends after the point where it was looked for. -/
theorem lt_of_readBody_eq_found {inClass : Bool} {passed body n : Nat} {t : Text}
    (h : readBody inClass passed t = .found body n) : passed < n := by
  fun_induction readBody inClass passed t with
  | case5 => rename_i ih; have := ih h; omega
  | case6 => rename_i ih; have := ih h; omega
  | case7 => rename_i ih; have := ih h; omega
  | case8 => cases h; omega
  | case9 => rename_i ih; have := ih h; omega
  | case10 => rename_i ih; have := ih h; omega
  | _ => cases h

/-- The lexeme that a regular expression makes. -/
def lexeme (body flags : Text) : Lexeme :=
  { kind := .regExp, content := .text body, variant := flags }

/-- Reads a regular expression.  Whatever stands first is taken for the opening slash. -/
def read (t : Text) : Reading Lexeme :=
  match readBody false (min 1 t.length) (t.drop 1) with
  | .found body closed =>
      let flags := (t.drop closed).takeWhile CharClass.regExpFlag.has
      .found (lexeme ((t.drop 1).take body) flags) (closed + flags.length)
  | .broken fault site n => .broken fault site n

/-- A regular expression has a length. -/
theorem pos_of_read_eq_found {t : Text} {x : Lexeme} {n : Nat} (h : read t = .found x n) :
    0 < n := by
  simp only [read] at h
  split at h
  · next body closed hbody =>
    have := lt_of_readBody_eq_found hbody
    cases h
    omega
  · cases h

end ScriptScanner.RegExpLiteral
