import Mathlib.Logic.Basic
import ScriptScanner.Diagnostic.Template
import ScriptScanner.Proofs.Trivia
set_option autoImplicit false

/-!
# What templates are made of

A template is literals and placeholders in turn, with a literal at either end.  No literal has an
opening brace in it and no name a closing one, so a template can be taken apart in one way only.  A
text that is no template is one followed by an opening brace that nothing closes.

A message is then made part by part: a literal stands for itself, and a placeholder for what the
context has under its name.  What a value contributes is not looked at again.
-/

namespace ScriptScanner

/-- What a context shows under a name. -/
inductive Record.Shows (context : Record) (name : Text) : Text → Prop
  | missing (h : context.lookup name = none) : Shows context name []
  | undefined (h : context.lookup name = some .undefined) : Shows context name []
  | text {v : Value} {t : Text} (h : context.lookup name = some v) (defined : v ≠ .undefined)
      (conversion : v.textOf? false = some t) : Shows context name t
  | tag {v : Value} (h : context.lookup name = some v) (conversion : v.textOf? false = none) :
      Shows context name v.tag

/-- A member that is defined is shown as its value is. -/
theorem Record.display_of_lookup {context : Record} {name : Text} {v : Value}
    (h : context.lookup name = some v) (defined : v ≠ .undefined) :
    context.display name = v.display := by
  rw [display, h]
  split
  · next hnone => cases hnone
  · next hsome => exact absurd (Option.some.inj hsome) defined
  · next hsome => rw [Option.some.inj hsome]

theorem Record.shows_display (context : Record) (name : Text) :
    context.Shows name (context.display name) := by
  unfold Record.display
  split
  · next h => exact .missing h
  · next h => exact .undefined h
  · next v defined h =>
    cases conversion : v.textOf? false with
    | none =>
      rw [Value.display, conversion]
      exact .tag h conversion
    | some t =>
      rw [Value.display, conversion]
      exact .text h defined conversion

theorem Record.Shows.eq_display {context : Record} {name t : Text} (h : context.Shows name t) :
    t = context.display name := by
  cases h with
  | missing h => rw [display, h]
  | undefined h => rw [display, h]
  | text h defined conversion =>
    rw [display_of_lookup h defined, Value.display, conversion, Option.getD_some]
  | @tag v h conversion =>
    have defined : v ≠ .undefined := by
      rintro rfl
      simp [Value.textOf?] at conversion
    rw [display_of_lookup h defined, Value.display, conversion, Option.getD_none]

/-- What a part contributes where every name stands for a text. -/
def TemplatePart.fill (shown : Text → Text) : TemplatePart → Text
  | literal plain => plain
  | placeholder name => shown name

namespace Template

/-! ## Parts in turn -/

/-- Literals without opening braces and names without closing ones, in turn. -/
inductive Alternates : List TemplatePart → Prop
  | last {plain : Text} (hplain : CodeUnit.leftBrace ∉ plain) : Alternates [.literal plain]
  | placeholder {plain name : Text} {parts : List TemplatePart}
      (hplain : CodeUnit.leftBrace ∉ plain) (hname : CodeUnit.rightBrace ∉ name)
      (rest : Alternates parts) : Alternates (.literal plain :: .placeholder name :: parts)

/-- The text with given parts. -/
def ofParts (parts : List TemplatePart) : Text := parts.flatMap TemplatePart.source

theorem ofParts_append (parts more : List TemplatePart) :
    ofParts (parts ++ more) = ofParts parts ++ ofParts more := List.flatMap_append

theorem ofParts_literal (plain : Text) : ofParts [.literal plain] = plain := List.append_nil plain

theorem ofParts_placeholder (plain name : Text) (parts : List TemplatePart) :
    ofParts (.literal plain :: .placeholder name :: parts) =
      plain ++ CodeUnit.leftBrace :: (name ++ CodeUnit.rightBrace :: ofParts parts) := by
  simp [ofParts, TemplatePart.source]

theorem Alternates.append_placeholder {parts more : List TemplatePart} {name : Text}
    (h : Alternates parts) (hname : CodeUnit.rightBrace ∉ name) (hmore : Alternates more) :
    Alternates (parts ++ .placeholder name :: more) := by
  induction h with
  | last hplain => exact .placeholder hplain hname hmore
  | placeholder hplain hname' _ ih => exact .placeholder hplain hname' ih

/-- Where two templates meet, two literals become one, and the whole is filled as the two are. -/
theorem Alternates.exists_joined {parts more : List TemplatePart} (h : Alternates parts)
    (hmore : Alternates more) :
    ∃ joined, Alternates joined ∧ ofParts joined = ofParts parts ++ ofParts more ∧
      ∀ shown, joined.flatMap (TemplatePart.fill shown) =
        parts.flatMap (TemplatePart.fill shown) ++ more.flatMap (TemplatePart.fill shown) := by
  induction h with
  | @last plain hplain =>
    have hjoin : ∀ {after : Text}, CodeUnit.leftBrace ∉ after →
        CodeUnit.leftBrace ∉ plain ++ after := fun hafter hmem =>
      (List.mem_append.mp hmem).elim hplain hafter
    cases hmore with
    | @last after hafter =>
      refine ⟨[.literal (plain ++ after)], .last (hjoin hafter), ?_, fun shown => ?_⟩
      · simp only [ofParts_literal]
      · simp [TemplatePart.fill]
    | @placeholder after name rest hafter hname hrest =>
      refine ⟨.literal (plain ++ after) :: .placeholder name :: rest,
        .placeholder (hjoin hafter) hname hrest, ?_, fun shown => ?_⟩
      · rw [ofParts_placeholder, ofParts_placeholder, ofParts_literal, List.append_assoc]
      · simp [TemplatePart.fill]
  | @placeholder plain name parts hplain hname _ ih =>
    obtain ⟨joined, hjoined, htext, hmessage⟩ := ih
    refine ⟨.literal plain :: .placeholder name :: joined, .placeholder hplain hname hjoined, ?_,
      fun shown => ?_⟩
    · rw [ofParts_placeholder, ofParts_placeholder, htext]
      simp
    · simp only [List.flatMap_cons, List.append_assoc, hmessage shown]

/-! ## Taking apart -/

/-- Up to a mark that does not occur in it, a text is a run of other units. -/
theorem cut_at {mark : CodeUnit} {run : Text} (h : mark ∉ run) (after : Text) :
    (run ++ mark :: after).takeWhile (· != mark) = run ∧
      (run ++ mark :: after).dropWhile (· != mark) = mark :: after := by
  refine Trivia.cut_append ?_ ?_
  · intro u hu
    exact bne_iff_ne.mpr fun heq => h (heq ▸ hu)
  · intro u hu
    obtain rfl : mark = u := Option.some.inj hu
    exact bne_self_eq_false mark

theorem cut_end {mark : CodeUnit} {run : Text} (h : mark ∉ run) :
    run.takeWhile (· != mark) = run ∧ run.dropWhile (· != mark) = [] := by
  have hrun : ∀ u ∈ run, (u != mark) = true := by
    intro u hu
    exact bne_iff_ne.mpr fun heq => h (heq ▸ hu)
  exact ⟨List.takeWhile_eq_self_iff.mpr hrun, List.dropWhile_eq_nil_iff.mpr hrun⟩

theorem parts?_literal {plain : Text} (hplain : CodeUnit.leftBrace ∉ plain) :
    parts? plain = some [.literal plain] := by
  obtain ⟨htake, hdrop⟩ := cut_end hplain
  rw [parts?]
  split
  · rw [htake]
  · next hcons => exact absurd (hdrop ▸ hcons) (List.cons_ne_nil _ _).symm

theorem parts?_placeholder {plain name : Text} (hplain : CodeUnit.leftBrace ∉ plain)
    (hname : CodeUnit.rightBrace ∉ name) (t : Text) :
    parts? (plain ++ CodeUnit.leftBrace :: (name ++ CodeUnit.rightBrace :: t)) =
      (parts? t).map (.literal plain :: .placeholder name :: ·) := by
  obtain ⟨htake, hdrop⟩ := cut_at hplain (name ++ CodeUnit.rightBrace :: t)
  obtain ⟨htake', hdrop'⟩ := cut_at hname t
  rw [parts?]
  split
  · next hnil => exact absurd (hdrop ▸ hnil) (List.cons_ne_nil _ _)
  · next hcons =>
    cases hdrop.symm.trans hcons
    split
    · next hnil => exact absurd (hdrop' ▸ hnil) (List.cons_ne_nil _ _)
    · next hcons =>
      cases hdrop'.symm.trans hcons
      rw [htake, htake']

theorem parts?_opened {plain opened : Text} (hplain : CodeUnit.leftBrace ∉ plain)
    (hopened : CodeUnit.rightBrace ∉ opened) :
    parts? (plain ++ CodeUnit.leftBrace :: opened) = none := by
  obtain ⟨_, hdrop⟩ := cut_at hplain opened
  obtain ⟨_, hdrop'⟩ := cut_end hopened
  rw [parts?]
  split
  · next hnil => exact absurd (hdrop ▸ hnil) (List.cons_ne_nil _ _)
  · next hcons =>
    cases hdrop.symm.trans hcons
    split
    · rfl
    · next hcons => exact absurd (hdrop' ▸ hcons) (List.cons_ne_nil _ _).symm

/-- Parts in turn are found again. -/
theorem parts?_ofParts {parts : List TemplatePart} (h : Alternates parts) :
    parts? (ofParts parts) = some parts := by
  induction h with
  | last hplain => rw [ofParts_literal, parts?_literal hplain]
  | placeholder hplain hname _ ih =>
    rw [ofParts_placeholder, parts?_placeholder hplain hname, ih, Option.map_some]

/-- Before a brace that nothing closes, no parts are found. -/
theorem parts?_ofParts_opened {parts : List TemplatePart} {opened : Text} (h : Alternates parts)
    (hopened : CodeUnit.rightBrace ∉ opened) :
    parts? (ofParts parts ++ CodeUnit.leftBrace :: opened) = none := by
  induction h with
  | last hplain => rw [ofParts_literal, parts?_opened hplain hopened]
  | placeholder hplain hname _ ih =>
    rw [ofParts_placeholder, List.append_assoc, List.cons_append, List.append_assoc,
      List.cons_append, parts?_placeholder hplain hname, ih, Option.map_none]

/-- What is dropped up to a mark begins with it, and the mark is not before that. -/
theorem exists_of_dropWhile_eq_cons {mark u : CodeUnit} {t after : Text}
    (h : t.dropWhile (· != mark) = u :: after) :
    ∃ run, mark ∉ run ∧ t = run ++ mark :: after := by
  have hu : ¬ (u != mark) := Trivia.not_of_mem_head?_dropWhile (· != mark) t (by rw [h]; rfl)
  have hmark : u = mark := by simpa using hu
  refine ⟨t.takeWhile (· != mark), fun hmem => ?_, ?_⟩
  · simpa using List.mem_takeWhile_imp hmem
  · rw [← hmark, ← h, hmark, List.takeWhile_append_dropWhile]

theorem not_mem_of_dropWhile_eq_nil {mark : CodeUnit} {t : Text}
    (h : t.dropWhile (· != mark) = []) : mark ∉ t := by
  intro hmem
  simpa using List.dropWhile_eq_nil_iff.mp h mark hmem

/-- Every text is parts in turn, or such parts and a brace that nothing closes. -/
theorem exists_parts (t : Text) :
    (∃ parts, Alternates parts ∧ t = ofParts parts) ∨
      ∃ parts opened, Alternates parts ∧ CodeUnit.rightBrace ∉ opened ∧
        t = ofParts parts ++ CodeUnit.leftBrace :: opened := by
  fun_induction parts? t with
  | case1 t _ hopening =>
    have hplain := not_mem_of_dropWhile_eq_nil hopening
    exact .inl ⟨[.literal t], .last hplain, (ofParts_literal t).symm⟩
  | case2 t u opened hopening hclosing =>
    obtain ⟨plain, hplain, rfl⟩ := exists_of_dropWhile_eq_cons hopening
    have hopened := not_mem_of_dropWhile_eq_nil hclosing
    refine .inr ⟨[.literal plain], opened, .last hplain, hopened, ?_⟩
    rw [ofParts_literal]
  | case3 t _ u opened hopening _ v rest hclosing ih =>
    obtain ⟨plain, hplain, rfl⟩ := exists_of_dropWhile_eq_cons hopening
    obtain ⟨name, hname, rfl⟩ := exists_of_dropWhile_eq_cons hclosing
    rcases ih with ⟨parts, hparts, hrest⟩ | ⟨parts, last, hparts, hlast, hrest⟩
    · refine .inl ⟨_, .placeholder hplain hname hparts, ?_⟩
      rw [ofParts_placeholder, hrest]
    · refine .inr ⟨_, last, .placeholder hplain hname hparts, hlast, ?_⟩
      rw [ofParts_placeholder, hrest]
      simp

/-- The parts that are found are those of the template. -/
theorem eq_ofParts_of_parts?_eq_some {t : Text} {parts : List TemplatePart}
    (h : parts? t = some parts) : Alternates parts ∧ t = ofParts parts := by
  rcases exists_parts t with ⟨found, hfound, rfl⟩ | ⟨found, opened, hfound, hopened, rfl⟩
  · rw [parts?_ofParts hfound] at h
    cases h
    exact ⟨hfound, rfl⟩
  · rw [parts?_ofParts_opened hfound hopened] at h
    cases h

theorem Alternates.eq_of_ofParts_eq {parts parts' : List TemplatePart} (h : Alternates parts)
    (h' : Alternates parts') (heq : ofParts parts = ofParts parts') : parts = parts' := by
  have hparts := parts?_ofParts h
  rw [heq, parts?_ofParts h'] at hparts
  exact (Option.some.inj hparts).symm

/-- A brace that is closed after all makes a placeholder of what it opened, so the parts before it
and what it opened are determined as well. -/
theorem Alternates.eq_of_opened_eq {parts parts' : List TemplatePart} {opened opened' : Text}
    (h : Alternates parts) (hopened : CodeUnit.rightBrace ∉ opened) (h' : Alternates parts')
    (hopened' : CodeUnit.rightBrace ∉ opened')
    (heq : ofParts parts ++ CodeUnit.leftBrace :: opened =
      ofParts parts' ++ CodeUnit.leftBrace :: opened') :
    parts = parts' ∧ opened = opened' := by
  have hclosed : ∀ (ps : List TemplatePart) (name : Text),
      ofParts (ps ++ [.placeholder name, .literal []]) =
        ofParts ps ++ CodeUnit.leftBrace :: name ++ [CodeUnit.rightBrace] := by
    intro ps name
    rw [ofParts_append]
    simp [ofParts, TemplatePart.source]
  have hempty : Alternates [.literal []] := .last List.not_mem_nil
  have hsame : parts ++ [.placeholder opened, .literal []] =
      parts' ++ [.placeholder opened', .literal []] :=
    (h.append_placeholder hopened hempty).eq_of_ofParts_eq
      (h'.append_placeholder hopened' hempty) (by rw [hclosed, hclosed, heq])
  obtain ⟨hparts, hlast⟩ := List.append_inj' hsame rfl
  refine ⟨hparts, ?_⟩
  injection hlast with hplaceholder
  exact TemplatePart.placeholder.inj hplaceholder

/-! ## Rendering -/

theorem render_ofParts {parts : List TemplatePart} (h : Alternates parts) (context : Record) :
    render (ofParts parts) context = parts.flatMap (TemplatePart.fill context.display) := by
  have hfill : TemplatePart.render context = TemplatePart.fill context.display := by
    funext part
    cases part <;> rfl
  rw [render, parts?_ofParts h, ← hfill]

theorem render_opened {parts : List TemplatePart} {opened : Text} (h : Alternates parts)
    (hopened : CodeUnit.rightBrace ∉ opened) (context : Record) :
    render (ofParts parts ++ CodeUnit.leftBrace :: opened) context =
      ofParts parts ++ CodeUnit.leftBrace :: opened := by
  rw [render, parts?_ofParts_opened h hopened]

theorem render_append {parts more : List TemplatePart} (h : Alternates parts)
    (hmore : Alternates more) (context : Record) :
    render (ofParts parts ++ ofParts more) context =
      render (ofParts parts) context ++ render (ofParts more) context := by
  obtain ⟨joined, hjoined, htext, hmessage⟩ := h.exists_joined hmore
  rw [← htext, render_ofParts hjoined, render_ofParts h, render_ofParts hmore, hmessage]

/-- No text is of both forms, and in either form it is made of one list of parts. -/
theorem xor_existsUnique_parts (t : Text) :
    Xor (∃! parts, Alternates parts ∧ t = ofParts parts)
      (∃! whole : List TemplatePart × Text, Alternates whole.1 ∧ CodeUnit.rightBrace ∉ whole.2 ∧
        t = ofParts whole.1 ++ CodeUnit.leftBrace :: whole.2) := by
  rcases exists_parts t with ⟨parts, hparts, rfl⟩ | ⟨parts, opened, hparts, hopened, rfl⟩
  · refine .inl ⟨⟨parts, ⟨hparts, rfl⟩, fun parts' ⟨hparts', heq⟩ => ?_⟩, ?_⟩
    · exact hparts'.eq_of_ofParts_eq hparts heq.symm
    · rintro ⟨⟨parts', opened⟩, ⟨hparts', hopened, heq⟩, _⟩
      have hnone := parts?_ofParts_opened hparts' hopened
      rw [← heq, parts?_ofParts hparts] at hnone
      cases hnone
  · refine .inr ⟨⟨(parts, opened), ⟨hparts, hopened, rfl⟩, ?_⟩, ?_⟩
    · rintro ⟨parts', opened'⟩ ⟨hparts', hopened', heq⟩
      obtain ⟨rfl, rfl⟩ := hparts.eq_of_opened_eq hopened hparts' hopened' heq
      rfl
    · rintro ⟨parts', ⟨hparts', heq⟩, _⟩
      have hnone := parts?_ofParts_opened hparts hopened
      rw [heq, parts?_ofParts hparts'] at hnone
      cases hnone

/-- Every text is of one of two forms, and is taken apart in one way.  Parts in turn make a message
part by part, and two templates make the message of the whole; a text with a brace that nothing
closes is its own message.  What is said of a missing member holds for all names but those that
every object of a host inherits: these are missing here, as `Record.display` has it, and shown
there. -/
theorem render_singlePass (context : Record) :
    (∀ name t, context.Shows name t ↔ t = context.display name) ∧
      (∀ parts, Alternates parts → render (ofParts parts) context =
        parts.flatMap (TemplatePart.fill context.display)) ∧
      (∀ parts opened, Alternates parts → CodeUnit.rightBrace ∉ opened →
        render (ofParts parts ++ CodeUnit.leftBrace :: opened) context =
          ofParts parts ++ CodeUnit.leftBrace :: opened) ∧
      (∀ t : Text, Xor (∃! parts, Alternates parts ∧ t = ofParts parts)
        (∃! whole : List TemplatePart × Text, Alternates whole.1 ∧
          CodeUnit.rightBrace ∉ whole.2 ∧
          t = ofParts whole.1 ++ CodeUnit.leftBrace :: whole.2)) ∧
      ∀ parts more, Alternates parts → Alternates more →
        render (ofParts parts ++ ofParts more) context =
          render (ofParts parts) context ++ render (ofParts more) context := by
  refine ⟨fun name t => ⟨Record.Shows.eq_display, ?_⟩, fun parts h => render_ofParts h context,
    fun parts opened h hopened => render_opened h hopened context, xor_existsUnique_parts,
    fun parts more h hmore => render_append h hmore context⟩
  rintro rfl
  exact context.shows_display name

/-- A context with braces in a value, and with a value that has no text. -/
def bracedContext : Record :=
  [("a", .text "\x7bb\x7d"), ("b", .number (Double.ofNat 2)), ("c", .record true [])]

/-- The placeholder that a value looks like is not filled, and neither is any before a brace that
nothing closes. -/
theorem render_singlePass_braced :
    Alternates [.literal [], .placeholder "a", .literal "+\x7d", .placeholder "b", .literal "="] ∧
      Alternates
        [.literal "=", .placeholder "\x7bc", .literal [], .placeholder "c", .literal []] ∧
      CodeUnit.rightBrace ∉ Text.ofString "\x7bb" ∧
      render ("\x7ba\x7d+\x7d\x7bb\x7d=" ++ Text.ofString "=\x7b\x7bc\x7d\x7bc\x7d")
          bracedContext = "\x7bb\x7d+\x7d2==[object Object]" ∧
      render (Text.ofString "=\x7b\x7bc\x7d\x7bc\x7d" ++ CodeUnit.leftBrace :: "\x7bb")
          bracedContext = "=\x7b\x7bc\x7d\x7bc\x7d\x7b\x7bb" := by
  obtain ⟨_, hrender, hopened, _, happend⟩ := render_singlePass bracedContext
  have hfirst : Alternates
      [.literal [], .placeholder "a", .literal "+\x7d", .placeholder "b", .literal "="] :=
    .placeholder (by decide) (by decide) (.placeholder (by decide) (by decide) (.last (by decide)))
  have hsecond : Alternates
      [.literal "=", .placeholder "\x7bc", .literal [], .placeholder "c", .literal []] :=
    .placeholder (by decide) (by decide) (.placeholder (by decide) (by decide) (.last (by decide)))
  refine ⟨hfirst, hsecond, by decide, ?_, hopened _ _ hsecond (by decide)⟩
  calc render (ofParts _ ++ ofParts _) bracedContext
    _ = render (ofParts _) bracedContext ++ render (ofParts _) bracedContext :=
        happend _ _ hfirst hsecond
    _ = _ := by
        rw [hrender _ hfirst, hrender _ hsecond]
        decide +kernel

end Template

end ScriptScanner
