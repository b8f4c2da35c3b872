import ScriptScanner.Proofs.Lexeme.Broken
import ScriptScanner.Proofs.Tokenization.Attempts
set_option autoImplicit false

/-!
# Two rules for one source

What an operand rule answers is looked at in one place: where a slash stands that begins no comment.
So two runs over a source with different rules go the same way until then.  As long as they have
found the same tokens, they stand at the same place, and an attempt there that meets no such slash
comes to the same in both.
-/

namespace ScriptScanner

/-! ## One scan with two answers -/

namespace Lexeme

/-- What does not begin with a slash is read in the same way with either answer. -/
theorem read_congr {t : Text} (h : t.head? ≠ some CodeUnit.slash) (operand operand' : Bool) :
    read operand' t = read operand t := by
  cases t with
  | nil => rfl
  | cons u rest =>
    have hu : u ≠ CodeUnit.slash := fun heq => h (congrArg some heq)
    simp only [read, hu, decide_false, Bool.false_and]

/-- What is broken at a slash is a regular expression, and it is reported at the slash. -/
theorem exists_endFault_of_read_slash {operand : Bool} {rest : Text} {fault : Fault}
    {site n : Nat} (h : read operand (CodeUnit.slash :: rest) = .broken fault site n) :
    site = 0 ∧ ∃ inClass, fault = RegExpLiteral.endFault inClass := by
  cases operand with
  | true =>
    change RegExpLiteral.read (CodeUnit.slash :: rest) = .broken fault site n at h
    rw [RegExpLiteral.read_cons] at h
    split at h
    · cases h
    · next hbody =>
      cases h
      obtain ⟨hfault, hsite, -⟩ := RegExpLiteral.leftOpen_of_readBody_eq_broken hbody
      exact ⟨hsite, hfault⟩
  | false =>
    change readMark (CodeUnit.slash :: rest) = .broken fault site n at h
    unfold readMark at h
    split at h
    · cases h
    · next hnone => exact absurd rfl (Punctuation.read?_cons_eq_none_iff.mp hnone .divide)

end Lexeme

/-- The condition is that of a regular expression that is not closed. -/
def Code.IsRegExp (code : Code) : Prop := code = .unterminatedRegExp ∨ code = .unterminatedClass

instance (code : Code) : Decidable code.IsRegExp := inferInstanceAs (Decidable (_ ∨ _))

namespace Cursor

variable {source : Source} {c c' : Cursor source} {flags flags' : Flags}

/-- The first unit behind a gap is the one of the source at that offset. -/
theorem unit?_offset_advanceBy (c : Cursor source) (gap : Nat) :
    source.text.unit? (c.advanceBy gap).offset = (c.rest.drop gap).head? := by
  rw [Text.unit?_natCast, ← head?_rest, advanceBy_rest]

/-- A token that begins with no slash is found with either answer. -/
theorem next_of_token {t : Token} (hflags : flags'.newlines = flags.newlines)
    (h : c.next flags = (.ok t, c'))
    (ht : source.text.unit? t.start ≠ some CodeUnit.slash) : c.next flags' = c.next flags := by
  obtain ⟨comments, gap, x, n, htrivia, hlexeme, rfl, rfl⟩ := exists_of_next_eq_ok h
  have hhead : (c.rest.drop gap).head? ≠ some CodeUnit.slash := by
    rw [← unit?_offset_advanceBy]
    rwa [Token.withComments_start] at ht
  have hlexeme' : Lexeme.read flags'.operand (c.rest.drop gap) = .found x n :=
    (Lexeme.read_congr hhead _ _).trans hlexeme
  have htrivia' : Trivia.read flags'.newlines c.rest = .found comments gap := hflags ▸ htrivia
  rw [next_of_found htrivia hlexeme, next_of_found htrivia' hlexeme']

/-- A fault that is not about a regular expression at a slash is found with either answer. -/
theorem next_of_fault {m : LocatedFault} (hflags : flags'.newlines = flags.newlines)
    (h : c.next flags = (.error m, c'))
    (hm : ¬ (source.text.unit? m.location.offset = some CodeUnit.slash ∧ m.fault.code.IsRegExp)) :
    c.next flags' = c.next flags := by
  obtain ⟨site, n, hbroken, -, -⟩ | ⟨comments, gap, site, n, htrivia, hbroken, hlocation, -⟩ :=
    exists_of_next_eq_error h
  · have hbroken' : Trivia.read flags'.newlines c.rest = .broken m.fault site n := hflags ▸ hbroken
    rw [next_of_trivia_broken hbroken, next_of_trivia_broken hbroken']
  · have hhead : (c.rest.drop gap).head? ≠ some CodeUnit.slash := by
      intro hslash
      obtain ⟨rest, hrest⟩ := List.head?_eq_some_iff.mp hslash
      have hunit := (unit?_offset_advanceBy c gap).trans hslash
      rw [hrest] at hbroken
      obtain ⟨rfl, inClass, hfault⟩ := Lexeme.exists_endFault_of_read_slash hbroken
      rw [advanceBy_zero] at hlocation
      refine hm ⟨?_, ?_⟩
      · rw [hlocation]
        exact hunit
      · rw [hfault]
        cases inClass with
        | false => exact .inl rfl
        | true => exact .inr rfl
    have hbroken' : Lexeme.read flags'.operand (c.rest.drop gap) = .broken m.fault site n :=
      (Lexeme.read_congr hhead _ _).trans hbroken
    have htrivia' : Trivia.read flags'.newlines c.rest = .found comments gap := hflags ▸ htrivia
    rw [next_of_broken htrivia hbroken, next_of_broken htrivia' hbroken']

end Cursor

/-! ## One attempt -/

/-- The outcome of an attempt may be about a slash that begins no comment: a token that begins with
one, or a regular expression that is not closed.  A host's own message says nothing about the
source, so it may be about anything. -/
def Source.MayMeetSlash (source : Source) : Except Failure Token → Prop
  | .ok t => source.text.unit? t.start = some CodeUnit.slash
  | .error (.diagnostic d) =>
      source.text.unit? d.location.offset = some CodeUnit.slash ∧ d.code.IsRegExp
  | .error (.message _) => True

instance (source : Source) : DecidablePred source.MayMeetSlash
  | .ok t => inferInstanceAs (Decidable (source.text.unit? t.start = some CodeUnit.slash))
  | .error (.diagnostic d) => inferInstanceAs
      (Decidable (source.text.unit? d.location.offset = some CodeUnit.slash ∧ d.code.IsRegExp))
  | .error (.message _) => inferInstanceAs (Decidable True)

namespace Observer

variable {source : Source} {o : Observer} {filename : Text} {c c' : Cursor source}
  {flags flags' : Flags} {j j' : Journal}

/-- A watched scan that meets no slash comes to the same with either answer. -/
theorem scan_of_not_mayMeetSlash {outcome : Except Failure Token}
    (hflags : flags'.newlines = flags.newlines)
    (h : o.scan filename c flags j = (outcome, c', j')) (hclear : ¬ source.MayMeetSlash outcome) :
    o.scan filename c flags' j = (outcome, c', j') := by
  rw [← h]
  apply scan_congr
  cases outcome with
  | ok t => exact Cursor.next_of_token hflags (next_eq_ok_of_scan h) hclear
  | error failure =>
    cases failure with
    | diagnostic d =>
      obtain ⟨m, hnext, rfl⟩ := exists_of_scan_eq_diagnostic h
      exact Cursor.next_of_fault hflags hnext hclear
    | message text => exact absurd trivial hclear

/-- Two watched scans from one place that find one token go to one place. -/
theorem scan_unique {t : Token} {c'' : Cursor source} {j'' : Journal} (hc : c.InPlace)
    (h : o.scan filename c flags j = (.ok t, c', j'))
    (h' : o.scan filename c flags' j = (.ok t, c'', j'')) : c'' = c' ∧ j'' = j' := by
  have hnext := next_eq_ok_of_scan h
  have hnext' := next_eq_ok_of_scan h'
  obtain ⟨_, -, hcovers, -⟩ := hc.exists_covers_of_next_eq_ok hnext
  obtain ⟨_, -, hcovers', -⟩ := hc.exists_covers_of_next_eq_ok hnext'
  have hoffset : c''.offset = c'.offset :=
    Int.ofNat_inj.mp (hcovers'.stop_eq.symm.trans hcovers.stop_eq)
  refine ⟨(hc.of_next_eq hnext').1.eq_of_offset_eq (hc.of_next_eq hnext).1 hoffset, ?_⟩
  rw [journal_of_scan_eq_ok h, journal_of_scan_eq_ok h']

end Observer

/-! ## Runs -/

/-- What the attempts of a run came to, in order. -/
def Tokenization.outcomes (run : Tokenization) : List (Except Failure Token) :=
  run.tokens.map .ok ++ (run.failure.map .error).toList

namespace Attempts

variable {source : Source} {s : Settings} {rule : OperandRule} {c : Cursor source}
  {earlier : List Token} {j : Journal} {run run' : Tokenization}

/-- The first attempt of a run is a scan where the run begins. -/
theorem head?_outcomes (h : Attempts s c earlier j run) :
    run.outcomes.head? = some (s.observer.scan s.filename c (s.flags earlier) j).1 := by
  cases h with
  | failed scan => rw [scan]; rfl
  | last scan => rw [scan]; rfl
  | token scan => rw [scan]; rfl

/-- An attempt that meets no slash comes to the same with any other rule. -/
theorem scan_withRule {c' : Cursor source} {j' : Journal} {outcome : Except Failure Token}
    (h : s.observer.scan s.filename c (s.flags earlier) j = (outcome, c', j'))
    (hclear : ¬ source.MayMeetSlash outcome) (rule : OperandRule) :
    s.observer.scan s.filename c (Settings.flags { s with rule } earlier) j =
      (outcome, c', j') := by
  have hflags : (Settings.flags { s with rule } earlier).newlines =
      (s.flags earlier).newlines := rfl
  exact Observer.scan_of_not_mayMeetSlash hflags h hclear

/-- What a run is determined by: its settings and where it begins. -/
theorem unique (h : Attempts s c earlier j run) (h' : Attempts s c earlier j run') :
    run' = run := by
  induction h generalizing run' with
  | failed scan =>
    cases h' with
    | failed scan' => cases scan.symm.trans scan'; rfl
    | last scan' => cases scan.symm.trans scan'
    | token scan' => cases scan.symm.trans scan'
  | last scan isEnd =>
    cases h' with
    | failed scan' => cases scan.symm.trans scan'
    | last scan' => cases scan.symm.trans scan'; rfl
    | token scan' notEnd => cases scan.symm.trans scan'; exact absurd isEnd notEnd
  | token scan notEnd _ ih =>
    cases h' with
    | failed scan' => cases scan.symm.trans scan'
    | last scan' isEnd => cases scan.symm.trans scan'; exact absurd isEnd notEnd
    | token scan' _ rest' =>
      cases scan.symm.trans scan'
      rw [ih rest']

/-- Where two runs with different rules have found the same tokens, they come to the same at the
next attempt, unless it meets a slash. -/
theorem outcomes_getElem?_eq (h : Attempts s c earlier j run)
    (h' : Attempts { s with rule } c earlier j run') (hc : c.InPlace) {k : Nat}
    {outcome : Except Failure Token} (hagree : run'.tokens.take k = run.tokens.take k)
    (houtcome : run.outcomes[k]? = some outcome) (hclear : ¬ source.MayMeetSlash outcome) :
    run'.outcomes[k]? = some outcome := by
  induction k generalizing c earlier j run run' with
  | zero =>
    rw [← List.head?_eq_getElem?, h.head?_outcomes] at houtcome
    rw [← List.head?_eq_getElem?, h'.head?_outcomes]
    rcases hscan : s.observer.scan s.filename c (s.flags earlier) j with ⟨outcome₁, c₁, j₁⟩
    rw [hscan] at houtcome
    cases houtcome
    exact congrArg (fun result => some result.1) (scan_withRule hscan hclear rule)
  | succ k ih =>
    -- the first tokens are one token, and both runs go on behind it
    cases h with
    | failed => simp [Tokenization.outcomes] at houtcome
    | last => simp [Tokenization.outcomes] at houtcome
    | token scan notEnd rest =>
      cases h' with
      | failed => simp at hagree
      | last scan' isEnd =>
        simp only [List.take_succ_cons, List.cons.injEq] at hagree
        exact absurd (hagree.1 ▸ isEnd) notEnd
      | token scan' _ rest' =>
        simp only [List.take_succ_cons, List.cons.injEq] at hagree
        obtain ⟨rfl, hagree⟩ := hagree
        obtain ⟨rfl, rfl⟩ := Observer.scan_unique hc scan scan'
        have hc' := (hc.of_next_eq (Observer.next_eq_ok_of_scan scan)).1
        exact ih rest rest' hc' hagree houtcome

/-- A run that meets no slash is the same run with any other rule. -/
theorem withRule (h : Attempts s c earlier j run)
    (hclear : ∀ outcome ∈ run.outcomes, ¬ source.MayMeetSlash outcome) (rule : OperandRule) :
    Attempts { s with rule } c earlier j run := by
  induction h with
  | failed scan =>
    have hfirst := hclear _ List.mem_cons_self
    exact .failed (scan_withRule scan hfirst rule)
  | last scan isEnd =>
    have hfirst := hclear _ List.mem_cons_self
    exact .last (scan_withRule scan hfirst rule) isEnd
  | token scan notEnd _ ih =>
    have hfirst := hclear _ List.mem_cons_self
    have hrest := ih fun outcome houtcome => hclear outcome (List.mem_cons_of_mem _ houtcome)
    exact .token (scan_withRule scan hfirst rule) notEnd hrest

end Attempts

/-- Of two runs over a source whose rules differ: where they have found the same tokens, they come
to the same at the next attempt, unless it meets a slash that begins no comment; and if no attempt
of one of them meets such a slash, they are the same run. -/
theorem tokenize_ruleMattersAtSlash (source : Source) (s : Settings) (rule : OperandRule) :
    (∀ (k : Nat) (outcome : Except Failure Token),
        (tokenize source { s with rule }).tokens.take k = (tokenize source s).tokens.take k →
        (tokenize source s).outcomes[k]? = some outcome → ¬ source.MayMeetSlash outcome →
          (tokenize source { s with rule }).outcomes[k]? = some outcome) ∧
      ((∀ outcome ∈ (tokenize source s).outcomes, ¬ source.MayMeetSlash outcome) →
        tokenize source { s with rule } = tokenize source s) := by
  have h := attempts_tokenize source s
  have h' := attempts_tokenize source { s with rule }
  refine ⟨fun k outcome hagree houtcome hclear => ?_, fun hclear => ?_⟩
  · exact h.outcomes_getElem?_eq h' (Cursor.inPlace_start source) hagree houtcome hclear
  · exact (h.withRule hclear rule).unique h'

/-- Two names with a comment between them and a comment that is not closed, both with slashes. -/
def slashesInComments : Source := ⟨"a /* / */ b /* /", by decide +kernel⟩

/-- The rule that takes every slash for the beginning of a regular expression. -/
def OperandRule.always : OperandRule := fun _ _ => true

theorem tokenize_ruleMattersAtSlash_slashesInComments :
    (tokenize slashesInComments { rule := OperandRule.always }).tokens.take 2 =
        (tokenize slashesInComments {}).tokens.take 2 ∧
      (∀ outcome ∈ (tokenize slashesInComments {}).outcomes,
        ¬ slashesInComments.MayMeetSlash outcome) ∧
      (∃ outcome, (tokenize slashesInComments {}).outcomes[2]? = some outcome ∧
        (tokenize slashesInComments { rule := OperandRule.always }).outcomes[2]? = some outcome) ∧
      tokenize slashesInComments { rule := OperandRule.always } =
        tokenize slashesInComments {} := by
  obtain ⟨hnext, hsame⟩ := tokenize_ruleMattersAtSlash slashesInComments {} OperandRule.always
  have hagree : (tokenize slashesInComments { rule := OperandRule.always }).tokens.take 2 =
      (tokenize slashesInComments {}).tokens.take 2 := by decide +kernel
  have hclear : ∀ outcome ∈ (tokenize slashesInComments {}).outcomes,
      ¬ slashesInComments.MayMeetSlash outcome := by decide +kernel
  obtain ⟨outcome, houtcome⟩ : ∃ outcome,
      (tokenize slashesInComments {}).outcomes[2]? = some outcome :=
    Option.isSome_iff_exists.mp (by decide +kernel)
  refine ⟨hagree, hclear, ⟨outcome, houtcome, ?_⟩, hsame hclear⟩
  exact hnext 2 outcome hagree houtcome (hclear _ (List.mem_of_getElem? houtcome))

end ScriptScanner
