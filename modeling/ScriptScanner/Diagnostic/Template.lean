import ScriptScanner.Value
set_option autoImplicit false

/-!
# Message templates

A template is text with placeholders: a name between an opening and the next closing brace.  An
opening brace within a name is part of it, and a closing brace outside of a placeholder is plain
text.  A template in which an opening brace is never closed is no template at all; it is shown as
it is, from its first unit on.

Rendering looks at the template once.  What a value contributes is never searched for
placeholders.
-/

namespace ScriptScanner

/-- A part of a template. -/
inductive TemplatePart where
  | literal (t : Text)
  | placeholder (name : Text)
  deriving DecidableEq, Repr, Inhabited

namespace TemplatePart

/-- What a part contributes to the message. -/
def render (context : Record) : TemplatePart → Text
  | literal t => t
  | placeholder name => context.display name

/-- What a part looks like in the template. -/
def source : TemplatePart → Text
  | literal t => t
  | placeholder name => CodeUnit.leftBrace :: (name ++ [CodeUnit.rightBrace])

end TemplatePart

namespace Template

/-- The parts of a template, unless an opening brace in it is never closed. -/
def parts? (t : Text) : Option (List TemplatePart) :=
  let plain := t.takeWhile (· != CodeUnit.leftBrace)
  match _opening : t.dropWhile (· != CodeUnit.leftBrace) with
  | [] => some [.literal plain]
  | _ :: opened =>
      let name := opened.takeWhile (· != CodeUnit.rightBrace)
      match _closing : opened.dropWhile (· != CodeUnit.rightBrace) with
      | [] => none
      | _ :: rest => (parts? rest).map (.literal plain :: .placeholder name :: ·)
  termination_by t.length
  decreasing_by
    have h₁ := congrArg List.length _opening
    have h₂ := congrArg List.length _closing
    have h₃ := (List.dropWhile_suffix (l := t) (· != CodeUnit.leftBrace)).length_le
    have h₄ := (List.dropWhile_suffix (l := opened) (· != CodeUnit.rightBrace)).length_le
    simp only [List.length_cons] at h₁ h₂
    omega

/-- The message that a template makes of a context. -/
def render (t : Text) (context : Record) : Text :=
  match parts? t with
  | some parts => parts.flatMap (TemplatePart.render context)
  | none => t

end Template

end ScriptScanner
