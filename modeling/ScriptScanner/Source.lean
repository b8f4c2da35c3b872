import ScriptScanner.Double.Whole
set_option autoImplicit false

/-!
# Sources

A source is a text that can be counted: it has fewer than `2 ^ 53` units, so the offset, the line
and the column of every place in it are exact as doubles.
-/

namespace ScriptScanner

/-- A text whose units can be counted exactly. -/
structure Source where
  text : Text
  length_lt : text.length < Double.exactLimit
  deriving DecidableEq, Repr

namespace Source

/-- The empty source. -/
def empty : Source := ⟨[], by decide⟩

instance : Inhabited Source := ⟨empty⟩

/-- The source with a text, if the text is not too long to be one. -/
def ofText? (t : Text) : Option Source :=
  if h : t.length < Double.exactLimit then some ⟨t, h⟩ else none

/-- The name of a source that its host gives no name. -/
def anonymousName : Text := "<anonymous>"

theorem ofText?_text (s : Source) : ofText? s.text = some s := by
  simp [ofText?, s.length_lt]

end Source

end ScriptScanner
