import ScriptScanner.Double.Shortest
set_option autoImplicit false

/-!
# Values in messages

The members of a diagnostic's context are values that a host may choose freely, and a message shows
them as text.  Most values have one.  A list joins the texts of its items with commas, where an item
that is null or undefined adds nothing between its commas; a symbol has a text on its own but not as
an item.  A record has one fixed text unless it is bare or has a member that takes the place of its
conversion to text.  A value without a text is shown by the tag of its sort.
-/

namespace ScriptScanner

/-- A value that a message may mention. -/
inductive Value where
  | undefined
  | null
  | bool (b : Bool)
  | number (d : Double)
  | text (t : Text)
  /-- A whole number of any size, which is not a double. -/
  | bigint (n : Int)
  /-- A symbol with a description. -/
  | symbol (description : Text)
  | list (items : List Value)
  /-- Named members; a bare record has no conversion to text. -/
  | record (bare : Bool) (members : List (Text × Value))
  deriving Repr, Inhabited

/-- Values by name, as a context gives them. -/
abbrev Record := List (Text × Value)

namespace Value

/-- The member that stands in for the conversion of a record to text. -/
def conversionMember : Text := "toString"

mutual

/-- The text of a value, if it has one; `asItem` tells whether the value is an item of a list. -/
def textOf? (asItem : Bool) : Value → Option Text
  | .undefined => some (if asItem then [] else "undefined")
  | .null => some (if asItem then [] else "null")
  | .bool b => some (if b then "true" else "false")
  | .number d => some d.text
  | .text t => some t
  | .bigint n => some (Text.ofInt n)
  | .symbol d =>
      if asItem then none else some (Text.ofString "Symbol(" ++ d ++ Text.ofString ")")
  | .list items => (itemTexts? items).map (List.intercalate (Text.ofString ","))
  | .record bare members =>
      if bare || members.any (fun m => m.1 = conversionMember) then none
      else some "[object Object]"

/-- The texts of the items of a list, if all of them have one. -/
def itemTexts? : List Value → Option (List Text)
  | [] => some []
  | v :: rest =>
      match v.textOf? true, itemTexts? rest with
      | some t, some ts => some (t :: ts)
      | _, _ => none

end

/-- The tag of the sort of value that may have no text. -/
def tag : Value → Text
  | .list _ => "[object Array]"
  | _ => "[object Object]"

/-- How a message shows a value. -/
def display (v : Value) : Text := (v.textOf? false).getD v.tag

end Value

/-- How a message shows a member of a context; nothing if it is missing or undefined.  A context has
the members it names and no others.  A name that every object of a host inherits, such as `toString`
or `constructor`, is the exception: it is taken as missing here unless the context names it, where
the host's message shows the inherited member. -/
def Record.display (members : Record) (name : Text) : Text :=
  match members.lookup name with
  | none => []
  | some .undefined => []
  | some v => v.display

end ScriptScanner
