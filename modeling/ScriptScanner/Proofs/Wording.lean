import Mathlib.Data.List.Basic
import ScriptScanner.Proofs.Feed.Blame
import ScriptScanner.Proofs.Locations
import ScriptScanner.Proofs.Quoting
import ScriptScanner.Proofs.Template
set_option autoImplicit false

/-!
# How diagnostics are worded

A fault gives its values to the catalogue by name, and the template of its condition asks for them
by name.  The two agree: the template of each condition asks for one member at most, and that is the
one that holds what the fault quotes.  So a diagnostic is the template with the quoted text in its
place, then the name of the source and the line.  Neither the quoted text nor the name is looked at
for placeholders, whatever they are.
-/

namespace ScriptScanner

/-- The name of the family that the diagnostics of a category belong to. -/
def Category.familyName : Category → Text
  | lexer => "LexerError"
  | parse => "ParseError"
  | internal => "InternalError"

namespace Diagnostic

/-- The diagnostic is worded by the catalogue: its detail is the template of its condition with the
quoted text in place of every placeholder, and its message is the detail with the name of the source
and the line in decimal.  The catalogue makes it, and does not refuse it to its family. -/
structure Worded (d : Diagnostic) (filename quote : Text) : Prop where
  filename_eq : d.filename = filename
  message_eq : d.message =
    d.detail ++ Text.ofString " at " ++ filename ++ Text.ofString ":" ++ Text.ofInt d.location.line
  familyName_eq : d.familyName = d.code.definition.category.familyName
  detail_eq : ∃ parts, Template.Alternates parts ∧
    d.code.definition.template = Template.ofParts parts ∧
    d.detail = parts.flatMap (TemplatePart.fill fun _ => quote)
  create_eq : ∃ context, d.context = some context ∧
    create d.code.id context d.location filename = .ok d
  make_eq : make (some d.code.definition.category) d.code.id d.detail d.location filename
    d.context = .ok d

section

variable (code : Code) (context : Record) (location : Location) (filename : Text)

theorem familyName_ofCode :
    (ofCode code context location filename).familyName = code.definition.category.familyName := by
  simp only [familyName, ofCode]
  cases code.definition.category with
  | lexer | parse | internal => rfl

/-- A condition is made from its identifier. -/
theorem create_id :
    create code.id context location filename = .ok (ofCode code context location filename) := by
  rw [create, Code.ofId?_id]

/-- The family of its category does not refuse a condition. -/
theorem make_id :
    make (some code.definition.category) code.id
        (Template.render code.definition.template context) location filename (some context) =
      .ok (ofCode code context location filename) := by
  rw [make, Code.ofId?_id]
  exact if_pos rfl

end

end Diagnostic

/-! ## Faults -/

/-- The name of a part that is a placeholder. -/
def TemplatePart.name? : TemplatePart → Option Text
  | literal _ => none
  | placeholder name => some name

/-- The member of a context that the message of a condition mentions. -/
def Code.member? : Code → Option Text
  | illegalCharacter => some "char"
  | missingExponent => some "text"
  | missingHexDigits => some "prefix"
  | missingToken => some "expected"
  | lookaheadOverflow => some "limit"
  | unterminatedComment | unterminatedString | unterminatedRegExp | unterminatedClass
  | emptyPushback => none

/-- The templates of the catalogue are templates, and they mention no other member. -/
theorem Code.exists_parts (code : Code) :
    ∃ parts, Template.Alternates parts ∧
      code.definition.template = Template.ofParts parts ∧
      ∀ name, .placeholder name ∈ parts → code.member? = some name := by
  have hcatalogue : ((Template.parts? code.definition.template).any fun parts =>
      parts.all fun part => part.name?.all fun name => code.member? = some name) = true := by
    cases code <;> decide +kernel
  obtain ⟨parts, hparts, hall⟩ := Option.any_eq_true _ _ |>.mp hcatalogue
  obtain ⟨halternates, htemplate⟩ := Template.eq_ofParts_of_parts?_eq_some hparts
  refine ⟨parts, halternates, htemplate, ?_⟩
  intro name hname
  have hpart := List.all_eq_true.mp hall _ hname
  rw [TemplatePart.name?, Option.all_some] at hpart
  exact of_decide_eq_true hpart

/-- The member that the message of a fault mentions holds what the fault quotes. -/
theorem Fault.display_context {fault : Fault} {name : Text} (h : fault.code.member? = some name) :
    fault.context.display name = fault.quote := by
  cases fault with
  | illegalCharacter quoted | missingExponent quoted | missingHexDigits quoted
  | missingToken quoted =>
    obtain rfl := Option.some.inj h
    exact Record.display_of_lookup List.lookup_cons_self Value.noConfusion
  | lookaheadOverflow limit =>
    obtain rfl := Option.some.inj h
    refine (Record.display_of_lookup List.lookup_cons_self Value.noConfusion).trans ?_
    rw [Value.display, Value.textOf?, Option.getD_some, quote]
  | unterminatedComment | unterminatedString | unterminatedRegExp | unterminatedClass
  | emptyPushback => cases h

variable {source : Source}

theorem Location.IsPlaceOf.natAbs_line_le {location : Location} (h : location.IsPlaceOf source) :
    location.line.natAbs ≤ Double.exactLimit := by
  obtain ⟨offset, hle, rfl⟩ := h
  have hlength := source.length_lt
  have hcount : (source.text.take offset).count CodeUnit.lineFeed ≤ offset :=
    Nat.le_trans List.count_le_length (List.length_take_le _ _)
  change (1 + ((source.text.take offset).count CodeUnit.lineFeed : Int)).natAbs ≤ _
  omega

/-- Whatever a fault quotes and whatever the source is called, the diagnostic is worded by the
catalogue. -/
theorem Fault.worded_diagnose (fault : Fault) {location : Location}
    (hplace : location.IsPlaceOf source) (filename : Text) :
    (fault.diagnose location filename).Worded filename fault.quote := by
  refine ⟨rfl, ?_, Diagnostic.familyName_ofCode _ _ _ _, ?_,
    ⟨fault.context, rfl, Diagnostic.create_id _ _ _ _⟩, Diagnostic.make_id _ _ _ _⟩
  · have hline : Double.wholeText (fault.diagnose location filename).location.line =
        Text.ofInt (fault.diagnose location filename).location.line := if_pos hplace.natAbs_line_le
    rw [Diagnostic.message, hline]
    rfl
  · obtain ⟨parts, halternates, htemplate, hmember⟩ := fault.code.exists_parts
    refine ⟨parts, halternates, htemplate, ?_⟩
    change Template.render fault.code.definition.template fault.context = _
    rw [htemplate, Template.render_ofParts halternates]
    refine List.flatMap_congr ?_
    intro part hpart
    cases part with
    | literal plain => rfl
    | placeholder name => exact fault.display_context (hmember name hpart)

/-! ## Scans and requests -/

/-- What a diagnostic quotes that a request fails with: a piece of the source if the request scans,
and otherwise what the host has asked for. -/
inductive Feed.Quotes (z : Feed source) (r : Request) (d : Diagnostic) : Text → Prop
  | scan {flags : Flags} {quote : Text} (looks : r.looksWith? z.flags = some flags)
      (quotes : z.cursor.Quotes flags d quote) : Quotes z r d quote
  | demand {kindName : Text} (code_eq : d.code = .missingToken)
      (request_eq : r = .demand kindName) : Quotes z r d kindName
  | overflow (code_eq : d.code = .lookaheadOverflow) : Quotes z r d "3"
  | emptyPushback (code_eq : d.code = .emptyPushback) : Quotes z r d []

theorem Request.eq_demand_of_demanded? {r : Request} {kindName : Text}
    (h : r.demanded? = some kindName) : r = .demand kindName := by
  cases r with
  | demand => exact congrArg Request.demand (Option.some.inj h)
  | _ => cases h

/-- The host's own faults quote what it has asked for. -/
theorem Feed.quotes_of_isOfHost (z : Feed source) {r : Request} {fault : Fault}
    (h : fault.IsOfHost r.demanded?) (location : Location) (filename : Text) :
    z.Quotes r (fault.diagnose location filename) fault.quote := by
  cases fault with
  | missingToken expected => exact .demand rfl (Request.eq_demand_of_demanded? h)
  | lookaheadOverflow limit =>
    have hlimit : (Double.ofNat Ring.maxPending).text = Text.ofString "3" := by decide +kernel
    obtain rfl := h
    rw [Fault.quote, hlimit]
    exact .overflow rfl
  | emptyPushback => exact .emptyPushback rfl
  | _ => exact h.elim

/-- A failure of a request is a diagnostic that is worded by the catalogue and quotes what it is
about, or a message of a callback. -/
theorem Feed.worded_of_respond {o : Observer} {z : Feed source} (hz : z.Reachable o) (r : Request) :
    (∀ d, (z.respond o r).1 = .error (.diagnostic d) →
        ∃ quote, d.Worded z.filename quote ∧ z.Quotes r d quote) ∧
      ∀ m, (z.respond o r).1 = .error (.message m) → o.Answers m := by
  have hfails := (blames_respond (o := o) z r).failsBy
  obtain ⟨_, _, _, hlocated⟩ := hz.exists_follows
  constructor
  · intro d hd
    have hplace := hlocated r d hd
    cases hfails _ hd with
    | @scan flags m c' looks next_eq =>
      exact ⟨m.fault.quote, m.fault.worded_diagnose hplace _,
        .scan looks (Cursor.quotes_of_next_eq_error next_eq _)⟩
    | @host fault isOfHost location =>
      exact ⟨fault.quote, fault.worded_diagnose hplace _, z.quotes_of_isOfHost isOfHost _ _⟩
  · intro m hm
    cases hfails _ hm with
    | callback answers => exact answers

/-- Every diagnostic of a scan or of a request is worded by the catalogue, with the name that the
source was given, and quotes the source or what the host has asked for.  Nothing else is a failure
but a message of a callback. -/
theorem diagnostics_worded (source : Source) :
    (∀ c : Cursor source, c.Scanned → ∀ flags m c', c.next flags = (.error m, c') →
        ∀ filename, ∃ quote, (m.diagnose filename).Worded filename quote ∧
          c.Quotes flags (m.diagnose filename) quote) ∧
      ∀ (o : Observer) (filename : Text) (flags : Flags) (requests : List Request) (r : Request),
        let z := (Feed.start source filename flags).after o requests
        (∀ d, (z.respond o r).1 = .error (.diagnostic d) →
            ∃ quote, d.Worded filename quote ∧ z.Quotes r d quote) ∧
          ∀ m, (z.respond o r).1 = .error (.message m) → o.Answers m := by
  constructor
  · intro c hc flags m c' hnext filename
    have hplace := hc.inPlace.isPlaceOf_of_next_eq_error hnext
    exact ⟨m.fault.quote, m.fault.worded_diagnose hplace filename,
      Cursor.quotes_of_next_eq_error hnext filename⟩
  · intro o filename flags requests r z
    have hz : z.Reachable o := .after requests (.start filename flags)
    have hfilename : z.filename = filename := Feed.filename_after o _ requests
    rw [← hfilename]
    exact Feed.worded_of_respond hz r

/-- A name, and behind a comment a number whose exponent has no digits. -/
def openExponent : Source := ⟨"x /*c*/ 1.5e+", by decide +kernel⟩

/-- The number is quoted without the comment before it, and what looks like a placeholder is none in
the name of a source or of a kind. -/
theorem diagnostics_worded_openExponent :
    ((Cursor.start openExponent).next ⟨false, true⟩).2.Scanned ∧
      (∃ m quote, (((Cursor.start openExponent).next ⟨false, true⟩).2.next ⟨false, false⟩).1 =
          .error m ∧
        (m.diagnose "\x7btext\x7d").Worded "\x7btext\x7d" quote ∧
        ((Cursor.start openExponent).next ⟨false, true⟩).2.Quotes ⟨false, false⟩
          (m.diagnose "\x7btext\x7d") quote ∧
        (m.diagnose "\x7btext\x7d").message =
          "Missing exponent in 1.5e+ at \x7btext\x7d:1") ∧
      ∃ d quote, ((Feed.start openExponent "\x7btext\x7d" ⟨false, true⟩).respond .silent
          (.demand "\x7bexpected\x7d")).1 = .error (.diagnostic d) ∧
        d.Worded "\x7btext\x7d" quote ∧
        (Feed.start openExponent "\x7btext\x7d" ⟨false, true⟩).Quotes
          (.demand "\x7bexpected\x7d") d quote ∧
        (Failure.diagnostic d).describe =
          "Syntax error: Missing \x7bexpected\x7d\n\x7btext\x7d:1" := by
  obtain ⟨hscans, hrequests⟩ := diagnostics_worded openExponent
  have hscanned : ((Cursor.start openExponent).next ⟨false, true⟩).2.Scanned := .next _ .start
  refine ⟨hscanned, ?_, ?_⟩
  · have hfault : (((Cursor.start openExponent).next ⟨false, true⟩).2.next ⟨false, false⟩).1 =
        .error ⟨.missingExponent "1.5e+", ⟨⟨1, 14⟩, 13⟩⟩ := by decide +kernel
    obtain ⟨quote, hworded, hquotes⟩ :=
      hscans _ hscanned ⟨false, false⟩ _ _ (Prod.ext hfault rfl) "\x7btext\x7d"
    exact ⟨_, quote, hfault, hworded, hquotes, by decide +kernel⟩
  · obtain ⟨hdiagnostics, hmessages⟩ :=
      hrequests .silent "\x7btext\x7d" ⟨false, true⟩ [] (.demand "\x7bexpected\x7d")
    have hshown : ((Feed.start openExponent "\x7btext\x7d" ⟨false, true⟩).respond .silent
        (.demand "\x7bexpected\x7d")).1.mapError Failure.describe =
          .error "Syntax error: Missing \x7bexpected\x7d\n\x7btext\x7d:1" := by decide +kernel
    rcases houtcome : ((Feed.start openExponent "\x7btext\x7d" ⟨false, true⟩).respond .silent
        (.demand "\x7bexpected\x7d")).1 with (d | m) | answer
    · obtain ⟨quote, hworded, hquotes⟩ := hdiagnostics d houtcome
      rw [houtcome] at hshown
      exact ⟨d, quote, rfl, hworded, hquotes, Except.error.inj hshown⟩
    · obtain ⟨_, _, _, hnone, _⟩ | ⟨_, _, _, hnone, _⟩ := hmessages m houtcome
      · cases hnone
      · cases hnone
    · rw [houtcome] at hshown
      cases hshown

end ScriptScanner
