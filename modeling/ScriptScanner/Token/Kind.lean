import ScriptScanner.Token.Keyword
import ScriptScanner.Token.Operator
set_option autoImplicit false

/-!
# Kinds of token

Hosts refer to kinds by name, so a kind has a name and can be looked up by it.  Keywords and
operators are kinds of their own; a line break is a token only where line breaks are scanned, and
every source ends in one `endOfSource`.
-/

namespace ScriptScanner

/-- What kind of thing a token is. -/
inductive TokenKind where
  | identifier
  | number
  | string
  | regExp
  | newline
  | operator (o : Operator)
  | keyword (k : Keyword)
  | endOfSource
  deriving DecidableEq, Repr, Inhabited

namespace TokenKind

/-- The name by which a host refers to the kind. -/
def name : TokenKind → Text
  | identifier => "identifier"
  | number => "number"
  | string => "string"
  | regExp => "regexp"
  | newline => "newline"
  | operator o => o.name
  | keyword k => k.spelling
  | endOfSource => "end"

/-- A letter in its capital form. -/
def capital (u : CodeUnit) : CodeUnit := if 0x61 ≤ u && u ≤ 0x7A then u - 0x20 else u

/-- The label of the kind in a table of kinds: its name in capitals. -/
def label (k : TokenKind) : Text := k.name.map capital

/-- Every kind. -/
def all : List TokenKind :=
  [identifier, number, string, regExp, newline] ++ Operator.all.map operator ++
    Keyword.all.map keyword ++ [endOfSource]

/-- The kind with a given name, if there is one. -/
def ofName? (t : Text) : Option TokenKind := all.find? fun k => k.name = t

/-- The kind of a word: a keyword if it spells one, an identifier otherwise. -/
def ofWord (t : Text) : TokenKind :=
  match Keyword.ofSpelling? t with
  | some k => keyword k
  | none => identifier

theorem mem_all (k : TokenKind) : k ∈ all := by
  cases k with
  | operator o => simp [all, Operator.mem_all]
  | keyword w => simp [all, Keyword.mem_all]
  | _ => decide

@[simp] theorem ofName?_name (k : TokenKind) : ofName? k.name = some k := by
  have h : ∀ l ∈ all, ofName? l.name = some l := by decide +kernel
  exact h k (mem_all k)

/-- No two kinds share a name. -/
theorem name_injective {k l : TokenKind} (h : k.name = l.name) : k = l := by
  have hk := ofName?_name k
  rw [h, ofName?_name] at hk
  exact (Option.some.inj hk).symm

end TokenKind

end ScriptScanner
