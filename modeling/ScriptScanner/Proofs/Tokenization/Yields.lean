import ScriptScanner.Proofs.Observer
import ScriptScanner.Tokenization
set_option autoImplicit false

/-!
# What a run over a source yields

A run over a whole source asks its rule, scans, and goes on until the end of the source or a fault.
Where the rule looks at the kind of the last token alone, and the observer lets tokens pass, nothing
else has a part in the run, and it can be said as a relation: from a cursor on, and after a kind of
token, the scans yield these tokens and end in this fault or in none.

The relation is a function of the cursor and the kind, so whoever has it has the run.
-/

namespace ScriptScanner

/-- The rule that decides by the kind of the last token. -/
def OperandRule.ofKind (rule : Option TokenKind → Bool) : OperandRule := fun _ previous =>
  rule (previous.map fun t => t.kind)

theorem OperandRule.default_eq_ofKind : OperandRule.default = ofKind expectsOperand := rfl

/-- The kind of the last token that is no line break, after one more token. -/
def TokenKind.significant (previous : Option TokenKind) (k : TokenKind) : Option TokenKind :=
  if k = .newline then previous else some k

theorem Tokenization.map_kind_significant (previous : Option Token) (t : Token) :
    (significant previous t).map (fun t => t.kind) =
      TokenKind.significant (previous.map fun t => t.kind) t.kind := by
  rw [significant, TokenKind.significant]
  split
  · rfl
  · rfl

variable {source : Source} {newlines : Bool} {rule : Option TokenKind → Bool}

/-- From a cursor on, the scans of a run yield the tokens, and the fault unless they come to the end
of the source.  `previous` is the kind that the rule is told first. -/
inductive Cursor.Yields (newlines : Bool) (rule : Option TokenKind → Bool) :
    Cursor source → (previous : Option TokenKind) → List Token → Option LocatedFault → Prop
  | failed {c c' : Cursor source} {previous : Option TokenKind} {fault : LocatedFault}
      (scan : c.next ⟨newlines, rule previous⟩ = (.error fault, c')) :
      Yields newlines rule c previous [] (some fault)
  | last {c c' : Cursor source} {previous : Option TokenKind} {t : Token}
      (scan : c.next ⟨newlines, rule previous⟩ = (.ok t, c')) (isEnd : t.kind = .endOfSource) :
      Yields newlines rule c previous [t] none
  | token {c c' : Cursor source} {previous : Option TokenKind} {t : Token} {tokens : List Token}
      {fault : Option LocatedFault} (scan : c.next ⟨newlines, rule previous⟩ = (.ok t, c'))
      (notEnd : t.kind ≠ .endOfSource)
      (rest : Yields newlines rule c' (TokenKind.significant previous t.kind) tokens fault) :
      Yields newlines rule c previous (t :: tokens) fault

/-- What is yielded is determined by where the run stands. -/
theorem Cursor.Yields.unique {c : Cursor source} {previous : Option TokenKind}
    {tokens tokens' : List Token} {fault fault' : Option LocatedFault}
    (h : c.Yields newlines rule previous tokens fault)
    (h' : c.Yields newlines rule previous tokens' fault') : tokens = tokens' ∧ fault = fault' := by
  induction h generalizing tokens' fault' with
  | failed scan =>
    cases h' with
    | failed scan' => cases scan.symm.trans scan'; exact ⟨rfl, rfl⟩
    | last scan' => cases scan.symm.trans scan'
    | token scan' => cases scan.symm.trans scan'
  | last scan isEnd =>
    cases h' with
    | failed scan' => cases scan.symm.trans scan'
    | last scan' => cases scan.symm.trans scan'; exact ⟨rfl, rfl⟩
    | token scan' notEnd => cases scan.symm.trans scan'; exact absurd isEnd notEnd
  | token scan notEnd _ ih =>
    cases h' with
    | failed scan' => cases scan.symm.trans scan'
    | last scan' isEnd => cases scan.symm.trans scan'; exact absurd isEnd notEnd
    | token scan' _ rest' =>
      cases scan.symm.trans scan'
      obtain ⟨rfl, rfl⟩ := ih rest'
      exact ⟨rfl, rfl⟩

/-- A run that comes to the end of the source yields a token. -/
theorem Cursor.Yields.ne_nil {c : Cursor source} {previous : Option TokenKind}
    {tokens : List Token} (h : c.Yields newlines rule previous tokens none) : tokens ≠ [] := by
  cases h with
  | last => exact List.cons_ne_nil _ _
  | token => exact List.cons_ne_nil _ _

/-! ## Runs as relations -/

section Run

variable {s : Settings}

/-- What the fault becomes that a run fails with: no other was told before. -/
def Settings.failure (s : Settings) (m : LocatedFault) : Failure :=
  s.observer.failure 0 (m.diagnose s.filename)

/-- A run that is under way still yields its other tokens and its fault. -/
theorem Tokenization.exists_yields_of_run (hrule : s.rule = OperandRule.ofKind rule)
    (ho : s.observer.LetsTokensPass) (p : Progress source) (hcalls : p.journal.errorCalls = 0) :
    ∃ rest fault, (p.run s).tokens = p.tokens.reverse ++ rest ∧
      (p.run s).failure = fault.map s.failure ∧
      p.cursor.Yields s.newlines rule (p.previous.map fun t => t.kind) rest fault := by
  have hasks : ∀ (p : Progress source) {result : Except LocatedFault Token × Cursor source},
      p.cursor.next ⟨s.newlines, s.rule p.calls p.previous⟩ = result →
        p.cursor.next ⟨s.newlines, rule (p.previous.map fun t => t.kind)⟩ = result := by
    rintro p _ rfl
    rw [hrule, OperandRule.ofKind]
  fun_induction Progress.run s p with
  | case1 p flags asked failure cursor journal hscan =>
    rcases hnext : p.cursor.next flags with ⟨outcome, c⟩
    cases outcome with
    | ok t =>
      obtain ⟨_, hok⟩ := ho.exists_scan_eq hnext s.filename p.journal
      rw [hscan] at hok
      cases hok
    | error m =>
      obtain ⟨_, herror⟩ := Observer.exists_scan_eq_error hnext s.observer s.filename p.journal
      rw [hscan, hcalls] at herror
      cases herror
      exact ⟨[], some m, (List.append_nil _).symm, rfl, .failed (hasks p hnext)⟩
  | case2 p flags asked t cursor journal hscan after hend =>
    have hnext := Observer.next_eq_ok_of_scan hscan
    exact ⟨[t], none, List.reverse_cons, rfl, .last (hasks p hnext) hend⟩
  | case3 p flags asked t cursor journal hscan after hend ih =>
    have hafter : after.journal.errorCalls = 0 :=
      (Observer.errorCalls_of_scan_eq_ok hscan).trans hcalls
    obtain ⟨rest, fault, htokens, hfailure, hrest⟩ := ih hafter
    have hnext := Observer.next_eq_ok_of_scan hscan
    refine ⟨t :: rest, fault, ?_, hfailure, .token (hasks p hnext) hend ?_⟩
    · rw [htokens, List.reverse_cons, List.append_assoc, List.singleton_append]
    · rw [← map_kind_significant]
      exact hrest

/-- The record of a run over a whole source is what is yielded from its beginning. -/
theorem exists_yields_tokenize (source : Source) (hrule : s.rule = OperandRule.ofKind rule)
    (ho : s.observer.LetsTokensPass) :
    ∃ fault, (tokenize source s).failure = fault.map s.failure ∧
      (Cursor.start source).Yields s.newlines rule none (tokenize source s).tokens fault := by
  obtain ⟨rest, fault, htokens, hfailure, hyields⟩ :=
    Tokenization.exists_yields_of_run hrule ho { cursor := Cursor.start source } rfl
  refine ⟨fault, hfailure, ?_⟩
  rw [tokenize, htokens]
  exact hyields

theorem yields_tokenize_of_failure_eq_none {source : Source}
    (hrule : s.rule = OperandRule.ofKind rule) (ho : s.observer.LetsTokensPass)
    (hnone : (tokenize source s).failure = none) :
    (Cursor.start source).Yields s.newlines rule none (tokenize source s).tokens none := by
  obtain ⟨fault, hfailure, hyields⟩ := exists_yields_tokenize source hrule ho
  obtain rfl : fault = none := Option.map_eq_none_iff.mp (hfailure.symm.trans hnone)
  exact hyields

/-- Whatever is yielded from the beginning is the record of the run. -/
theorem tokenize_eq_of_yields {tokens : List Token} {fault : Option LocatedFault}
    (hrule : s.rule = OperandRule.ofKind rule) (ho : s.observer.LetsTokensPass)
    (h : (Cursor.start source).Yields s.newlines rule none tokens fault) :
    (tokenize source s).tokens = tokens ∧ (tokenize source s).failure = fault.map s.failure := by
  obtain ⟨fault', hfailure, hyields⟩ := exists_yields_tokenize source hrule ho
  obtain ⟨rfl, rfl⟩ := hyields.unique h
  exact ⟨rfl, hfailure⟩

end Run

end ScriptScanner
