import ScriptScanner.Text
set_option autoImplicit false

/-!
# Keywords

The reserved words.  A name that is spelled like one of them is that keyword and not an identifier;
case matters, and nothing around the word may be part of it.
-/

namespace ScriptScanner

/-- A reserved word. -/
inductive Keyword where
  | breakWord | caseWord | catchWord | constWord | continueWord | debuggerWord | defaultWord
  | deleteWord | doWord | elseWord | enumWord | falseWord | finallyWord | forWord | functionWord
  | ifWord | inWord | instanceofWord | letWord | newWord | nullWord | returnWord | switchWord
  | thisWord | throwWord | trueWord | tryWord | typeofWord | varWord | voidWord | yieldWord
  | whileWord | withWord
  deriving DecidableEq, Repr, Inhabited

namespace Keyword

/-- The word itself, which is also the name of its kind of token. -/
def spelling : Keyword → Text
  | .breakWord => "break"
  | .caseWord => "case"
  | .catchWord => "catch"
  | .constWord => "const"
  | .continueWord => "continue"
  | .debuggerWord => "debugger"
  | .defaultWord => "default"
  | .deleteWord => "delete"
  | .doWord => "do"
  | .elseWord => "else"
  | .enumWord => "enum"
  | .falseWord => "false"
  | .finallyWord => "finally"
  | .forWord => "for"
  | .functionWord => "function"
  | .ifWord => "if"
  | .inWord => "in"
  | .instanceofWord => "instanceof"
  | .letWord => "let"
  | .newWord => "new"
  | .nullWord => "null"
  | .returnWord => "return"
  | .switchWord => "switch"
  | .thisWord => "this"
  | .throwWord => "throw"
  | .trueWord => "true"
  | .tryWord => "try"
  | .typeofWord => "typeof"
  | .varWord => "var"
  | .voidWord => "void"
  | .yieldWord => "yield"
  | .whileWord => "while"
  | .withWord => "with"

/-- Every keyword, in the order in which they are documented. -/
def all : List Keyword :=
  [.breakWord, .caseWord, .catchWord, .constWord, .continueWord, .debuggerWord, .defaultWord,
   .deleteWord, .doWord, .elseWord, .enumWord, .falseWord, .finallyWord, .forWord, .functionWord,
   .ifWord, .inWord, .instanceofWord, .letWord, .newWord, .nullWord, .returnWord, .switchWord,
   .thisWord, .throwWord, .trueWord, .tryWord, .typeofWord, .varWord, .voidWord, .yieldWord,
   .whileWord, .withWord]

/-- The keyword that a text spells, if it spells one. -/
def ofSpelling? (t : Text) : Option Keyword := all.find? fun k => k.spelling = t

theorem mem_all (k : Keyword) : k ∈ all := by cases k <;> decide

@[simp] theorem ofSpelling?_spelling (k : Keyword) : ofSpelling? k.spelling = some k := by
  cases k <;> rfl

theorem spelling_injective {k l : Keyword} (h : k.spelling = l.spelling) : k = l := by
  have hk := ofSpelling?_spelling k
  rw [h, ofSpelling?_spelling] at hk
  exact (Option.some.inj hk).symm

/-- A text spells a keyword exactly if it is the keyword's spelling. -/
theorem ofSpelling?_eq_some_iff {t : Text} {k : Keyword} :
    ofSpelling? t = some k ↔ t = k.spelling := by
  constructor
  · intro h
    have hs := List.find?_some (by simpa only [ofSpelling?] using h)
    exact (of_decide_eq_true hs).symm
  · rintro rfl
    exact ofSpelling?_spelling k

end Keyword

end ScriptScanner
