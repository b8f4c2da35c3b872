import ScriptScanner.Proofs.Observer
import ScriptScanner.Proofs.Scan
import ScriptScanner.Tokenization
set_option autoImplicit false

/-!
# The attempts of a run

A run over a whole source is a sequence of attempts.  An attempt tells the rule which token came
last, scans once with the answer, and then the run ends or goes on behind the token.  Here that is
said for any rule and any observer, so what holds of each attempt holds of every run: the number of
attempts is bounded by the length of the source, and the rule is asked once for each of them.
-/

namespace ScriptScanner

/-- The last of the tokens that is no line break. -/
def lastSignificant (tokens : List Token) : Option Token :=
  (tokens.filter fun t => t.kind ≠ .newline).getLast?

theorem lastSignificant_concat (tokens : List Token) (t : Token) :
    lastSignificant (tokens ++ [t]) = Tokenization.significant (lastSignificant tokens) t := by
  unfold lastSignificant Tokenization.significant
  by_cases ht : t.kind = .newline
  · simp [ht]
  · simp [ht]

/-- What the rule answers when it is asked after these tokens. -/
def Settings.answer (s : Settings) (earlier : List Token) : Bool :=
  s.rule earlier.length (lastSignificant earlier)

/-- The flags of the attempt after these tokens. -/
def Settings.flags (s : Settings) (earlier : List Token) : Flags :=
  { newlines := s.newlines, operand := s.answer earlier }

variable {source : Source} {s : Settings} {c c' : Cursor source} {earlier : List Token}
  {j j' : Journal} {run : Tokenization}

/-- From a cursor on and after earlier tokens, the attempts of a run leave this record. -/
inductive Attempts (s : Settings) :
    Cursor source → (earlier : List Token) → Journal → Tokenization → Prop
  | failed {c c' : Cursor source} {earlier : List Token} {j j' : Journal} {failure : Failure}
      (scan : s.observer.scan s.filename c (s.flags earlier) j = (.error failure, c', j')) :
      Attempts s c earlier j
        { tokens := [], failure := some failure, asked := [lastSignificant earlier], journal := j' }
  | last {c c' : Cursor source} {earlier : List Token} {j j' : Journal} {t : Token}
      (scan : s.observer.scan s.filename c (s.flags earlier) j = (.ok t, c', j'))
      (isEnd : t.kind = .endOfSource) :
      Attempts s c earlier j
        { tokens := [t], failure := none, asked := [lastSignificant earlier], journal := j' }
  | token {c c' : Cursor source} {earlier : List Token} {j j' : Journal} {t : Token}
      {run : Tokenization}
      (scan : s.observer.scan s.filename c (s.flags earlier) j = (.ok t, c', j'))
      (notEnd : t.kind ≠ .endOfSource) (rest : Attempts s c' (earlier ++ [t]) j' run) :
      Attempts s c earlier j
        { run with tokens := t :: run.tokens, asked := lastSignificant earlier :: run.asked }

namespace Tokenization

/-- What a run that is under way still does are attempts. -/
theorem exists_attempts_of_run (p : Progress source) (hcalls : p.calls = p.tokens.length)
    (hprevious : p.previous = lastSignificant p.tokens.reverse) :
    ∃ run, Attempts s p.cursor p.tokens.reverse p.journal run ∧
      p.run s =
        { run with
          tokens := p.tokens.reverse ++ run.tokens, asked := p.asked.reverse ++ run.asked } := by
  have hasks : ∀ (p : Progress source) {result : Except Failure Token × Cursor source × Journal},
      p.calls = p.tokens.length → p.previous = lastSignificant p.tokens.reverse →
        s.observer.scan s.filename p.cursor ⟨s.newlines, s.rule p.calls p.previous⟩ p.journal =
          result →
        s.observer.scan s.filename p.cursor (s.flags p.tokens.reverse) p.journal = result := by
    rintro p _ hcalls hprevious rfl
    rw [Settings.flags, Settings.answer, List.length_reverse, hcalls, hprevious]
  fun_induction Progress.run s p with
  | case1 p flags asked failure cursor journal hscan =>
    refine ⟨_, .failed (hasks p hcalls hprevious hscan), ?_⟩
    simp only [Progress.close, asked, List.reverse_cons, List.append_nil, hprevious]
  | case2 p flags asked t cursor journal hscan after hend =>
    refine ⟨_, .last (hasks p hcalls hprevious hscan) hend, ?_⟩
    simp only [Progress.close, after, asked, List.reverse_cons, hprevious]
  | case3 p flags asked t cursor journal hscan after hend ih =>
    have hafter : after.previous = lastSignificant after.tokens.reverse := by
      simp only [after, List.reverse_cons, lastSignificant_concat, hprevious]
    obtain ⟨run, hattempts, hrun⟩ := ih (congrArg (· + 1) hcalls) hafter
    simp only [after, List.reverse_cons] at hattempts
    refine ⟨_, .token (hasks p hcalls hprevious hscan) hend hattempts, hrun.trans ?_⟩
    simp only [after, asked, List.reverse_cons, List.append_assoc, List.singleton_append, hprevious]

end Tokenization

/-- A run over a whole source is its attempts. -/
theorem attempts_tokenize (source : Source) (s : Settings) :
    Attempts s (Cursor.start source) [] {} (tokenize source s) := by
  obtain ⟨run, hattempts, hrun⟩ :=
    Tokenization.exists_attempts_of_run (s := s) { cursor := Cursor.start source } rfl rfl
  unfold tokenize
  rw [hrun]
  exact hattempts

namespace Attempts

/-! ## Counting -/

/-- One attempt is made for each token, and one more if the run fails. -/
theorem length_asked (h : Attempts s c earlier j run) :
    run.asked.length = run.tokens.length + if run.failure.isSome then 1 else 0 := by
  induction h with
  | failed => simp
  | last => simp
  | token _ _ _ ih =>
    simp only [List.length_cons, ih]
    omega

/-- There are no more attempts than units that are left, and one for the end. -/
theorem length_asked_le (h : Attempts s c earlier j run) :
    run.asked.length ≤ c.rest.length + 1 := by
  induction h with
  | failed => simp
  | last => simp
  | token scan notEnd _ ih =>
    have hcloser := Cursor.length_rest_next_lt (Observer.next_eq_ok_of_scan scan) notEnd
    simp only [List.length_cons]
    omega

/-! ## Single attempts -/

/-- Each token is what the scan finds that is told the answer to the question before it. -/
theorem exists_next_eq_ok (h : Attempts s c earlier j run) (hc : c.InPlace) {i : Nat} {t : Token}
    (ht : run.tokens[i]? = some t) :
    ∃ d d' : Cursor source, d.InPlace ∧
      d.next (s.flags (earlier ++ run.tokens.take i)) = (.ok t, d') := by
  induction h generalizing i with
  | failed => simp at ht
  | last scan =>
    obtain ⟨rfl, rfl⟩ : i = 0 ∧ t = _ := by simpa [List.getElem?_singleton, eq_comm] using ht
    exact ⟨_, _, hc, by simpa using Observer.next_eq_ok_of_scan scan⟩
  | token scan _ _ ih =>
    have hnext := Observer.next_eq_ok_of_scan scan
    cases i with
    | zero =>
      obtain rfl := Option.some.inj ht
      exact ⟨_, _, hc, by simpa using hnext⟩
    | succ i =>
      obtain ⟨d, d', hd, hd'⟩ := ih (hc.of_next_eq hnext).1 ht
      exact ⟨d, d', hd, by simpa using hd'⟩

/-- Each time the rule is told the last token before it that is no line break. -/
theorem asked_getElem? (h : Attempts s c earlier j run) {i : Nat} (hi : i < run.asked.length) :
    run.asked[i]? = some (lastSignificant (earlier ++ run.tokens.take i)) := by
  induction h generalizing i with
  | failed =>
    obtain rfl : i = 0 := by simpa using hi
    simp
  | last =>
    obtain rfl : i = 0 := by simpa using hi
    simp
  | token _ _ _ ih =>
    cases i with
    | zero => simp
    | succ i => simpa using ih (Nat.lt_of_succ_lt_succ hi)

/-! ## How a run ends -/

/-- A run that does not fail ends with the end of the source. -/
theorem exists_getLast?_eq (h : Attempts s c earlier j run) (hnone : run.failure = none) :
    ∃ t, run.tokens.getLast? = some t ∧ t.kind = .endOfSource := by
  induction h with
  | failed => cases hnone
  | @last _ _ _ _ _ t _ isEnd => exact ⟨t, rfl, isEnd⟩
  | token _ _ _ ih =>
    obtain ⟨t, hlast, ht⟩ := ih hnone
    exact ⟨t, by simp [List.getLast?_cons, hlast], ht⟩

/-- A run that fails does so by a scan that fails. -/
theorem exists_scan_eq_error (h : Attempts s c earlier j run) {failure : Failure}
    (hfailure : run.failure = some failure) :
    ∃ (d d' : Cursor source) (before after : Journal),
      s.observer.scan s.filename d (s.flags (earlier ++ run.tokens)) before =
        (.error failure, d', after) := by
  induction h with
  | failed scan =>
    cases hfailure
    exact ⟨_, _, _, _, by simpa using scan⟩
  | last => cases hfailure
  | token _ _ _ ih =>
    obtain ⟨d, d', before, after, hscan⟩ := ih hfailure
    exact ⟨d, d', before, after, by simpa using hscan⟩

end Attempts

end ScriptScanner
