import ScriptScanner.Proofs.Containment
import ScriptScanner.Proofs.Tokenization.Yields
set_option autoImplicit false

/-!
# Sources put together at a line feed

Where a source is put before another one with a line feed between them, its tokens come first,
without its end, and then the tokens of the other one, in their new places.  Two things could go
over the line feed: the comments before the end of the first source, which the next token gets, and
the kind of its last token, which the operand rule is told.  So the rule has to decide after that
kind what it decides at the beginning of a source.
-/

namespace ScriptScanner

variable {piece whole : Source} {before tail : Text} {newlines : Bool}
  {rule : Option TokenKind → Bool} {previous : Option TokenKind} {tokens : List Token}
  {fault : Option LocatedFault}

namespace Cursor.Yields

/-- The kind that is told first matters only by what the rule decides for it. -/
theorem of_rule_eq {c : Cursor piece} {other : Option TokenKind}
    (hrule : rule previous = rule other) (h : c.Yields newlines rule previous tokens fault) :
    c.Yields newlines rule other tokens fault := by
  induction h generalizing other with
  | failed scan => exact .failed (hrule ▸ scan)
  | last scan isEnd => exact .last (hrule ▸ scan) isEnd
  | @token c c' previous t tokens fault scan notEnd rest ih =>
    refine .token (hrule ▸ scan) notEnd (ih ?_)
    rw [TokenKind.significant, TokenKind.significant]
    split
    · exact hrule
    · rfl

/-- Where a cursor leads to another one, the same is yielded, after the comments between them. -/
theorem of_leads {c c' : Cursor piece} {comments : List Text} (hleads : c.Leads comments c')
    (h : c'.Yields false rule previous tokens fault) :
    c.Yields false rule previous (tokens.modifyHead fun t => t.precededBy comments) fault := by
  cases h with
  | failed scan => exact .failed (hleads.next_eq scan)
  | last scan isEnd => exact .last (hleads.next_eq scan) isEnd
  | token scan notEnd rest => exact .token (hleads.next_eq scan) notEnd rest

/-- With nothing after it, a smaller source yields the same in a larger one, in its place. -/
theorem of_corresponds (hs : whole.Contains piece before []) {c : Cursor piece} {d : Cursor whole}
    (hd : c.Corresponds before d) (h : c.Yields newlines rule previous tokens fault) :
    d.Yields newlines rule previous
      (tokens.map (Token.moved (before.count CodeUnit.lineFeed) before.length))
      (fault.map (LocatedFault.moved (before.count CodeUnit.lineFeed) before.length)) := by
  induction h generalizing d with
  | failed scan =>
    obtain ⟨d', hscan⟩ := hd.exists_next_eq_error hs scan
    exact .failed hscan
  | last scan isEnd =>
    obtain ⟨d', hscan, -⟩ := hd.exists_next_eq_ok hs scan
    exact .last hscan isEnd
  | token scan notEnd rest ih =>
    obtain ⟨d', hscan, hbehind⟩ := hd.exists_next_eq_ok hs scan
    exact .token hscan notEnd (ih hbehind)

/-- Before a line feed, the smaller source yields its tokens in the larger one, and then comes what
is yielded behind the line feed.  The rule has to decide there as at the beginning of a source. -/
theorem append (hs : whole.Contains piece before (CodeUnit.lineFeed :: tail)) {c : Cursor piece}
    {d : Cursor whole} (hd : c.Corresponds before d) {last : Token}
    (h : c.Yields false rule previous (tokens ++ [last]) none)
    (hrule : rule ((tokens.getLast?.map fun t => t.kind).or previous) = rule none)
    {behind : Cursor whole} (hbehind : behind.InPlace)
    (hoffset : behind.offset = before.length + piece.text.length + 1) {others : List Token}
    (hothers : behind.Yields false rule none others fault) :
    d.Yields false rule previous
      (tokens.map (Token.moved (before.count CodeUnit.lineFeed) before.length) ++
        others.modifyHead fun t => t.precededBy last.comments) fault := by
  induction tokens generalizing c d previous with
  | nil =>
    cases h with
    | last scan isEnd =>
      have hleads := hd.leads_of_isEnd hs scan isEnd hbehind hoffset
      exact of_leads hleads (hothers.of_rule_eq hrule.symm)
    | token _ _ rest => exact absurd rfl rest.ne_nil
  | cons t tokens ih =>
    rw [List.cons_append] at h
    generalize hmore : tokens ++ [last] = more at h
    cases h with
    | last => exact absurd hmore (List.append_ne_nil_of_right_ne_nil _ (List.cons_ne_nil _ _))
    | token scan notEnd rest =>
      subst hmore
      obtain ⟨d', hscan, hd'⟩ := hd.exists_next_of_lineFeed hs scan notEnd
      refine .token hscan notEnd (ih hd' rest ?_)
      have hplain : t.kind ≠ .newline := kind_ne_newline_of_next_false scan
      rw [← hrule, Token.moved_kind, TokenKind.significant, if_neg hplain, List.getLast?_cons]
      cases tokens.getLast? with
      | none => rfl
      | some u => rfl

end Cursor.Yields

/-! ## Whole sources -/

section Sources

variable {first second : Source}

theorem Source.contains_first (h : whole.text = first.text ++ CodeUnit.lineFeed :: second.text) :
    whole.Contains first [] (CodeUnit.lineFeed :: second.text) := ⟨h, nofun⟩

theorem Source.contains_second (h : whole.text = first.text ++ CodeUnit.lineFeed :: second.text) :
    whole.Contains second (first.text ++ [CodeUnit.lineFeed]) [] := by
  refine ⟨?_, ?_⟩
  · rw [h, List.append_nil, List.append_assoc, List.singleton_append]
  · rw [List.getLast?_concat]
    exact fun u hu => (Option.some.inj hu).symm

/-- Behind the line feed the second source is yielded, in its place. -/
theorem Cursor.Yields.exists_behind
    (htext : whole.text = first.text ++ CodeUnit.lineFeed :: second.text)
    (h : (Cursor.start second).Yields newlines rule previous tokens fault) :
    ∃ behind : Cursor whole, behind.InPlace ∧ behind.offset = first.text.length + 1 ∧
      behind.Yields newlines rule previous
        (tokens.map (Token.moved (first.text.count CodeUnit.lineFeed + 1) (first.text.length + 1)))
        (fault.map (LocatedFault.moved (first.text.count CodeUnit.lineFeed + 1)
          (first.text.length + 1))) := by
  have hlines : (first.text ++ [CodeUnit.lineFeed]).count CodeUnit.lineFeed =
      first.text.count CodeUnit.lineFeed + 1 := by
    rw [List.count_append, List.count_singleton_self]
  have hunits : (first.text ++ [CodeUnit.lineFeed]).length = first.text.length + 1 :=
    List.length_append
  have hle : first.text.length + 1 ≤ whole.text.length := by
    rw [htext, List.length_append, List.length_cons]
    omega
  obtain ⟨behind, hbehind, hoffset⟩ := Cursor.exists_inPlace hle
  have hplace : (Cursor.start second).Corresponds (first.text ++ [CodeUnit.lineFeed]) behind :=
    ⟨Cursor.inPlace_start second, hbehind, hoffset.trans hunits.symm⟩
  have hyields := h.of_corresponds (Source.contains_second htext) hplace
  rw [hlines, hunits] at hyields
  exact ⟨behind, hbehind, hoffset, hyields⟩

/-- The first source is yielded from the beginning, where none of its tokens has moved, and then
what is yielded behind the line feed. -/
theorem Cursor.Yields.append_behind
    (htext : whole.text = first.text ++ CodeUnit.lineFeed :: second.text) {last : Token}
    (h : (Cursor.start first).Yields false rule none (tokens ++ [last]) none)
    (hlast : ∀ t ∈ tokens.getLast?, rule (some t.kind) = rule none)
    {behind : Cursor whole} (hbehind : behind.InPlace)
    (hoffset : behind.offset = first.text.length + 1) {others : List Token}
    (hothers : behind.Yields false rule none others fault) :
    (Cursor.start whole).Yields false rule none
      (tokens ++ others.modifyHead fun t => t.precededBy last.comments) fault := by
  have hplace : (Cursor.start first).Corresponds [] (Cursor.start whole) :=
    ⟨Cursor.inPlace_start first, Cursor.inPlace_start whole, rfl⟩
  have hrule : rule ((tokens.getLast?.map fun t => t.kind).or none) = rule none := by
    cases hsome : tokens.getLast? with
    | none => rfl
    | some t => exact hlast t hsome
  have hline : behind.offset = ([] : Text).length + first.text.length + 1 := by
    rw [hoffset, List.length_nil, Nat.zero_add]
  have hwhole := h.append (Source.contains_first htext) hplace hrule hbehind hline hothers
  have hsame : tokens.map (Token.moved (([] : Text).count CodeUnit.lineFeed) ([] : Text).length) =
      tokens := by
    rw [List.count_nil, List.length_nil, funext Token.moved_zero]
    exact List.map_id tokens
  rw [hsame] at hwhole
  exact hwhole

/-- Two sources with a line feed between them have the tokens of the first one and, in their new
places, those of the second one, and fail as the second one does. -/
theorem tokenize_append_lineFeed {s : Settings} (hrule : s.rule = OperandRule.ofKind rule)
    (ho : s.observer.LetsTokensPass) (hnewlines : s.newlines = false)
    (htext : whole.text = first.text ++ CodeUnit.lineFeed :: second.text)
    (hnone : (tokenize first s).failure = none) {last : Token}
    (htokens : (tokenize first s).tokens = tokens ++ [last])
    (hlast : ∀ t ∈ tokens.getLast?, rule (some t.kind) = rule none) :
    (tokenize whole s).tokens =
        tokens ++ ((tokenize second s).tokens.map (Token.moved
          (first.text.count CodeUnit.lineFeed + 1) (first.text.length + 1))).modifyHead
            (fun t => t.precededBy last.comments) ∧
      ∃ fault : Option LocatedFault, (tokenize second s).failure = fault.map s.failure ∧
        (tokenize whole s).failure = (fault.map (LocatedFault.moved
          (first.text.count CodeUnit.lineFeed + 1) (first.text.length + 1))).map s.failure := by
  have hfirst := yields_tokenize_of_failure_eq_none hrule ho hnone
  obtain ⟨fault, hfailure, hsecond⟩ := exists_yields_tokenize second hrule ho
  rw [hnewlines] at hfirst hsecond
  rw [htokens] at hfirst
  obtain ⟨behind, hbehind, hoffset, hothers⟩ := hsecond.exists_behind htext
  have hwhole := hfirst.append_behind htext hlast hbehind hoffset hothers
  rw [← hnewlines] at hwhole
  obtain ⟨htokens_whole, hfailure_whole⟩ := tokenize_eq_of_yields hrule ho hwhole
  exact ⟨htokens_whole, fault, hfailure, hfailure_whole⟩

end Sources

/-- An assignment without its right side, and a comment. -/
def commentedAssignment : Source := ⟨"x = // c", by decide +kernel⟩

/-- A regular expression, and a string that is not closed. -/
def regExpThenString : Source := ⟨"/r/g\n 'd", by decide +kernel⟩

/-- The second one on the line after the first one. -/
def assignmentLines : Source :=
  ⟨commentedAssignment.text ++ CodeUnit.lineFeed :: regExpThenString.text, by decide +kernel⟩

theorem tokenize_append_lineFeed_assignmentLines :
    OperandRule.default = OperandRule.ofKind expectsOperand ∧ Observer.silent.LetsTokensPass ∧
      (tokenize commentedAssignment {}).failure = none ∧
      (tokenize regExpThenString {}).failure.isSome = true ∧
      ∃ tokens last, (tokenize commentedAssignment {}).tokens = tokens ++ [last] ∧
        (∀ t ∈ tokens.getLast?, expectsOperand (some t.kind) = expectsOperand none) ∧
        last.comments = [Text.ofString "// c"] ∧
        (tokenize assignmentLines {}).tokens = tokens ++ ((tokenize regExpThenString {}).tokens.map
          (Token.moved 1 9)).modifyHead (fun t => t.precededBy last.comments) ∧
        ∃ fault : Option LocatedFault,
          (tokenize regExpThenString {}).failure = fault.map (Settings.failure {}) ∧
          (tokenize assignmentLines {}).failure =
            (fault.map (LocatedFault.moved 1 9)).map (Settings.failure {}) := by
  have hpass : Observer.silent.LetsTokensPass := fun _ _ => rfl
  have hnone : (tokenize commentedAssignment {}).failure = none :=
    Option.isNone_iff_eq_none.mp (by decide +kernel)
  have hsome : (tokenize commentedAssignment {}).tokens ≠ [] := by decide +kernel
  have htokens := (List.dropLast_concat_getLast hsome).symm
  have hlast : ∀ t ∈ (tokenize commentedAssignment {}).tokens.dropLast.getLast?,
      expectsOperand (some t.kind) = expectsOperand none := by decide +kernel
  have hcomments : ∀ t ∈ (tokenize commentedAssignment {}).tokens.getLast?,
      t.comments = [Text.ofString "// c"] := by decide +kernel
  have htext : assignmentLines.text =
      commentedAssignment.text ++ CodeUnit.lineFeed :: regExpThenString.text := rfl
  exact ⟨OperandRule.default_eq_ofKind, hpass, hnone, by decide +kernel, _, _, htokens, hlast,
    hcomments _ (List.getLast?_eq_some_getLast hsome),
    tokenize_append_lineFeed (s := {}) OperandRule.default_eq_ofKind hpass rfl htext hnone htokens
      hlast⟩

end ScriptScanner
