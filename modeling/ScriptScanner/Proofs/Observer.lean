import ScriptScanner.Observer
set_option autoImplicit false

/-!
# Watching changes nothing but the way an operation ends

A callback can put its message in the place of an outcome.  It cannot move the cursor, turn one
diagnostic into another, or make a scan succeed that fails.  What becomes of a diagnostic depends on
how many were told before, and on nothing else that was told.
-/

namespace ScriptScanner

namespace Observer

variable {source : Source} {o : Observer} {filename : Text} {c c' : Cursor source} {flags : Flags}
  {j j' : Journal}

/-- What is reported is the diagnostic itself or a message. -/
theorem eq_of_report_eq_diagnostic {d d' : Diagnostic}
    (h : (o.report d j).1 = .diagnostic d') : d' = d := by
  unfold report at h
  split at h
  · cases h
    rfl
  · cases h

/-- A watched scan leaves the cursor where the scan leaves it. -/
theorem cursor_of_scan {outcome : Except Failure Token}
    (h : o.scan filename c flags j = (outcome, c', j')) : (c.next flags).2 = c' :=
  congrArg (fun result => result.2.1) h

/-- A diagnostic that a watched scan fails with is the one of the fault that was found. -/
theorem exists_of_scan_eq_diagnostic {d : Diagnostic}
    (h : o.scan filename c flags j = (.error (.diagnostic d), c', j')) :
    ∃ m, c.next flags = (.error m, c') ∧ d = m.diagnose filename := by
  have hcursor := cursor_of_scan h
  unfold scan at h
  rcases hn : c.next flags with ⟨outcome, c₁⟩
  rw [hn] at h hcursor
  cases outcome with
  | error m =>
    have hreport : (o.report (m.diagnose filename) j).1 = .diagnostic d :=
      Except.error.inj (congrArg Prod.fst h)
    exact ⟨m, congrArg _ hcursor, eq_of_report_eq_diagnostic hreport⟩
  | ok t =>
    have hwatch : (o.watch (.ok t) j).1 = .error (.diagnostic d) := congrArg Prod.fst h
    simp only [watch] at hwatch
    split at hwatch
    · cases hwatch
    · cases hwatch

/-- One of the callbacks answers with the message at some time. -/
def Answers (o : Observer) (m : Text) : Prop :=
  (∃ callback calls t, o.onToken = some callback ∧ callback calls t = some m) ∨
    ∃ callback calls d, o.onError = some callback ∧ callback calls d = some m

theorem answers_of_tellToken {t : Token} {m : Text} (h : (o.tellToken t j).1 = some m) :
    o.Answers m := by
  unfold tellToken at h
  split at h
  · cases h
  · next callback hcallback => exact .inl ⟨callback, _, t, hcallback, h⟩

theorem answers_of_report {d : Diagnostic} {m : Text} (h : (o.report d j).1 = .message m) :
    o.Answers m := by
  unfold report tellError at h
  cases hcallback : o.onError with
  | none =>
    rw [hcallback] at h
    cases h
  | some callback =>
    simp only [hcallback] at h
    cases hanswer : callback j.errorCalls d with
    | none =>
      rw [hanswer] at h
      cases h
    | some m' =>
      rw [hanswer] at h
      cases h
      exact .inr ⟨callback, _, d, hcallback, hanswer⟩

/-- A message that a watched scan fails with is a callback's answer. -/
theorem answers_of_scan {m : Text} (h : o.scan filename c flags j = (.error (.message m), c', j')) :
    o.Answers m := by
  have hwatch : (o.watch ((c.next flags).1.mapError fun fault => fault.diagnose filename) j).1 =
      .error (.message m) := congrArg Prod.fst h
  cases hnext : (c.next flags).1 with
  | error fault =>
    rw [hnext] at hwatch
    exact answers_of_report (Except.error.inj hwatch)
  | ok t =>
    rcases htell : o.tellToken t j with ⟨answer, told⟩
    rw [hnext] at hwatch
    change (o.watch (.ok t) j).1 = .error (.message m) at hwatch
    simp only [watch, htell] at hwatch
    cases answer with
    | none => cases hwatch
    | some m' =>
      cases hwatch
      exact answers_of_tellToken (congrArg Prod.fst htell)

/-! ## What is told before -/

/-- The failure that a diagnostic becomes when it is told after a number of others. -/
def failure (o : Observer) (errorCalls : Nat) (d : Diagnostic) : Failure :=
  match o.onError with
  | none => .diagnostic d
  | some callback =>
      match callback errorCalls d with
      | none => .diagnostic d
      | some m => .message m

theorem report_fst (o : Observer) (d : Diagnostic) (j : Journal) :
    (o.report d j).1 = o.failure j.errorCalls d := by
  unfold report tellError failure
  cases o.onError with
  | none => rfl
  | some callback =>
    simp only
    cases callback j.errorCalls d with
    | none => rfl
    | some m => rfl

/-- A watched scan that finds a fault fails with what the fault's diagnostic becomes. -/
theorem exists_scan_eq_error {m : LocatedFault} (h : c.next flags = (.error m, c')) (o : Observer)
    (filename : Text) (j : Journal) :
    ∃ j', o.scan filename c flags j =
      (.error (o.failure j.errorCalls (m.diagnose filename)), c', j') := by
  refine ⟨(o.report (m.diagnose filename) j).2, ?_⟩
  rw [scan, h, ← report_fst]
  rfl

/-- No token is answered with a message. -/
def LetsTokensPass (o : Observer) : Prop := ∀ t j, (o.tellToken t j).1 = none

/-- Where no token is answered with a message, a scan that finds one succeeds. -/
theorem LetsTokensPass.exists_scan_eq {source : Source} {o : Observer}
    (ho : o.LetsTokensPass) {c c' : Cursor source} {flags : Flags} {t : Token}
    (h : c.next flags = (.ok t, c')) (filename : Text) (j : Journal) :
    ∃ j', o.scan filename c flags j = (.ok t, c', j') := by
  have htell := ho t j
  rcases hj : o.tellToken t j with ⟨message, j'⟩
  rw [hj] at htell
  cases htell
  refine ⟨j', ?_⟩
  have hwatch : o.watch (.ok t) j = (.ok t, j') := by simp only [watch, hj]
  rw [scan, h]
  exact congrArg (fun result => (result.1, c', result.2)) hwatch

theorem errorCalls_of_tellToken (o : Observer) (t : Token) (j : Journal) :
    (o.tellToken t j).2.errorCalls = j.errorCalls := by
  unfold tellToken
  split
  · rfl
  · rfl

/-- A scan that finds a token tells of the token, and of nothing else. -/
theorem journal_of_scan_eq_ok {t : Token} (h : o.scan filename c flags j = (.ok t, c', j')) :
    j' = (o.tellToken t j).2 := by
  have hnext := next_eq_ok_of_scan h
  have hwatch : (o.watch (.ok t) j).2 = j' := by
    rw [scan, hnext] at h
    exact congrArg (fun result => result.2.2) h
  rw [← hwatch]
  simp only [watch]
  split
  · next htold => rw [htold]
  · next htold => rw [htold]

/-- A scan that finds a token tells of no error. -/
theorem errorCalls_of_scan_eq_ok {t : Token}
    (h : o.scan filename c flags j = (.ok t, c', j')) : j'.errorCalls = j.errorCalls := by
  rw [journal_of_scan_eq_ok h, errorCalls_of_tellToken]

/-- A watched scan depends on the scan alone. -/
theorem scan_congr {flags' : Flags} (h : c.next flags' = c.next flags) (o : Observer)
    (filename : Text) (j : Journal) :
    o.scan filename c flags' j = o.scan filename c flags j := by
  rw [scan, scan, h]

/-! ## Which condition an operation failed with -/

/-- The outcome is a failure that came of telling of a diagnostic of this condition, and nothing was
told after it. -/
def FailsWith {α : Type} (o : Observer) (code : Code) (outcome : Except Failure α) (j : Journal) :
    Prop :=
  ∃ d j₀, d.code = code ∧ outcome = .error (o.report d j₀).1 ∧ j = (o.report d j₀).2

theorem not_failsWith_ok {α : Type} {code : Code} {a : α} : ¬ o.FailsWith code (.ok a) j := by
  rintro ⟨_, _, _, houtcome, _⟩
  cases houtcome

theorem report_of_silent (d : Diagnostic) (j : Journal) (h : o.onError = none) :
    o.report d j = (.diagnostic d, j) := by
  rw [report, tellError, h]

theorem events_of_report (d : Diagnostic) (j : Journal) (h : o.onError ≠ none) :
    (o.report d j).2.events = .error d :: j.events := by
  obtain ⟨callback, hcallback⟩ := Option.ne_none_iff_exists'.mp h
  rw [report, tellError, hcallback]
  simp only
  cases callback j.errorCalls d with
  | none => rfl
  | some m => rfl

/-- A diagnostic is known from what becomes of it and from what was told. -/
theorem eq_of_report_eq {d d' : Diagnostic} (h : o.report d j = o.report d' j') : d = d' := by
  by_cases ho : o.onError = none
  · rw [report_of_silent d j ho, report_of_silent d' j' ho] at h
    exact Failure.diagnostic.inj (Prod.mk.inj h).1
  · have hevents := events_of_report d j ho
    rw [h, events_of_report d' j' ho] at hevents
    exact (Event.error.inj (List.cons.inj hevents).1).symm

/-- What an operation failed with is one condition. -/
theorem FailsWith.unique {α : Type} {code code' : Code} {outcome : Except Failure α}
    (h : o.FailsWith code outcome j) (h' : o.FailsWith code' outcome j) : code = code' := by
  obtain ⟨d, j₁, rfl, houtcome, hj⟩ := h
  obtain ⟨d', j₂, rfl, houtcome', hj'⟩ := h'
  have hfailure := Except.error.inj (houtcome.symm.trans houtcome')
  rw [eq_of_report_eq (Prod.ext hfailure (hj.symm.trans hj'))]

/-- The condition of the diagnostic that an outcome is. -/
def codeOf? {α : Type} : Except Failure α → Option Code
  | .error (.diagnostic d) => some d.code
  | _ => none

/-- Where nobody is told of diagnostics, the condition is that of the diagnostic itself. -/
theorem failsWith_iff_of_silent {α : Type} {code : Code} {outcome : Except Failure α}
    (h : o.onError = none) : o.FailsWith code outcome j ↔ codeOf? outcome = some code := by
  constructor
  · rintro ⟨d, j₀, rfl, rfl, _⟩
    rw [report_of_silent d j₀ h]
    rfl
  · intro hcode
    unfold codeOf? at hcode
    split at hcode
    · next d =>
      cases hcode
      refine ⟨d, j, rfl, ?_, ?_⟩
      · rw [report_of_silent d j h]
      · rw [report_of_silent d j h]
    · cases hcode

/-- To answer a token with a message is not to report a diagnostic. -/
theorem watch_ok_ne_report (t : Token) (d : Diagnostic) (j j₀ : Journal) :
    o.watch (.ok t) j ≠ (.error (o.report d j₀).1, (o.report d j₀).2) := by
  intro h
  rcases htell : o.tellToken t j with ⟨answer, j'⟩
  simp only [watch, htell] at h
  cases answer with
  | none => cases h
  | some m =>
    obtain ⟨hfailure, rfl⟩ := Prod.mk.inj h
    by_cases ho : o.onError = none
    · rw [report_of_silent d j₀ ho] at hfailure
      cases hfailure
    · have hevents := events_of_report d j₀ ho
      unfold tellToken at htell
      split at htell
      · cases htell
      · rw [← (Prod.mk.inj htell).2] at hevents
        cases (List.cons.inj hevents).1

/-- A watched scan that fails with some condition fails with that of the fault that was found. -/
theorem exists_of_scan_failsWith {α : Type} {code : Code} {failure : Failure}
    (h : o.scan filename c flags j = (.error failure, c', j'))
    (hcode : o.FailsWith (α := α) code (.error failure) j') :
    ∃ m, c.next flags = (.error m, c') ∧ m.fault.code = code := by
  obtain ⟨d, j₀, rfl, hfailure, hj⟩ := hcode
  cases hfailure
  have hcursor := cursor_of_scan h
  unfold scan at h
  rcases hn : c.next flags with ⟨outcome, c₁⟩
  rw [hn] at h hcursor
  cases hcursor
  cases outcome with
  | error m =>
    have hreport : o.report (m.diagnose filename) j = o.report d j₀ := by
      have hfirst : (o.report (m.diagnose filename) j).1 = (o.report d j₀).1 :=
        Except.error.inj (congrArg Prod.fst h)
      have hsecond : (o.report (m.diagnose filename) j).2 = j' :=
        congrArg (fun result => result.2.2) h
      exact Prod.ext hfirst (hsecond.trans hj)
    refine ⟨m, rfl, ?_⟩
    rw [← eq_of_report_eq hreport]
    rfl
  | ok t =>
    -- a callback's message for a token is no report of a diagnostic
    have hwatch : (o.watch (.ok t) j).1 = .error (o.report d j₀).1 := congrArg Prod.fst h
    have hjournal : (o.watch (.ok t) j).2 = j' := congrArg (fun result => result.2.2) h
    exact absurd (Prod.ext hwatch (hjournal.trans hj)) (watch_ok_ne_report t d j j₀)

/-! ## Callbacks that only listen -/

/-- No callback puts a message in the place of an outcome. -/
structure OnlyListens (o : Observer) : Prop where
  onToken : ∀ callback ∈ o.onToken, ∀ calls t, callback calls t = none
  onError : ∀ callback ∈ o.onError, ∀ calls d, callback calls d = none

/-- There is a callback for the event. -/
def hears (o : Observer) : Event → Bool
  | .token _ => o.onToken.isSome
  | .error _ => o.onError.isSome

/-- The journal after an event is told. -/
def hear (o : Observer) (j : Journal) : Event → Journal
  | .token t => (o.tellToken t j).2
  | .error d => (o.tellError d j).2

/-- The journal lists the events that there is a callback for, the latest first. -/
theorem events_foldl_hear (o : Observer) (events : List Event) (j : Journal) :
    (events.foldl o.hear j).events = (events.filter o.hears).reverse ++ j.events := by
  induction events generalizing j with
  | nil => rfl
  | cons e events ih =>
    have hfirst : (o.hear j e).events = ([e].filter o.hears).reverse ++ j.events := by
      cases e with
      | token t => cases ho : o.onToken <;> simp [hear, hears, tellToken, ho]
      | error d => cases ho : o.onError <;> simp [hear, hears, tellError, ho]
    rw [List.foldl_cons, ih, hfirst, ← List.append_assoc, ← List.reverse_append,
      ← List.filter_append, List.singleton_append]

end Observer

/-- What there is to tell of a failure: the diagnostic, if it is one. -/
def Event.ofFailure : Failure → List Event
  | .diagnostic d => [.error d]
  | .message _ => []

/-- What there is to tell of an outcome when it fails. -/
def Event.failed {α : Type} : Except Failure α → List Event
  | .error failure => ofFailure failure
  | .ok _ => []

/-- What there is to tell of a scan when it finds a token. -/
def Event.found {ε : Type} : Except ε Token → List Event
  | .ok t => [.token t]
  | .error _ => []

namespace Observer

namespace OnlyListens

variable {source : Source} {o : Observer}

theorem silent : Observer.silent.OnlyListens := ⟨nofun, nofun⟩

theorem report_eq (ho : o.OnlyListens) (d : Diagnostic) (j : Journal) :
    o.report d j = (.diagnostic d, o.hear j (.error d)) := by
  rw [report, hear, tellError]
  cases hcallback : o.onError with
  | none => rfl
  | some callback =>
    simp only [ho.onError callback hcallback]

theorem tellToken_eq (ho : o.OnlyListens) (t : Token) (j : Journal) :
    o.tellToken t j = (none, o.hear j (.token t)) := by
  rw [hear, tellToken]
  cases hcallback : o.onToken with
  | none => rfl
  | some callback => simp only [ho.onToken callback hcallback]

/-- Whoever only listens is told of the token that a scan finds. -/
theorem scan_of_ok (ho : o.OnlyListens) {c c' : Cursor source} {flags : Flags} {t : Token}
    (h : c.next flags = (.ok t, c')) (filename : Text) (j : Journal) :
    o.scan filename c flags j = (.ok t, c', o.hear j (.token t)) := by
  have hwatch : o.watch (.ok t) j = (.ok t, o.hear j (.token t)) := by
    simp only [watch, ho.tellToken_eq]
  rw [scan, h]
  exact congrArg (fun result => (result.1, c', result.2)) hwatch

/-- Whoever only listens is told of the fault that a scan finds. -/
theorem scan_of_error (ho : o.OnlyListens) {c c' : Cursor source} {flags : Flags}
    {m : LocatedFault} (h : c.next flags = (.error m, c')) (filename : Text) (j : Journal) :
    o.scan filename c flags j =
      (.error (.diagnostic (m.diagnose filename)), c',
        o.hear j (.error (m.diagnose filename))) := by
  have hwatch : o.watch (.error (m.diagnose filename)) j =
      (.error (.diagnostic (m.diagnose filename)), o.hear j (.error (m.diagnose filename))) := by
    simp only [watch, ho.report_eq]
  rw [scan, h]
  exact congrArg (fun result => (result.1, c', result.2)) hwatch

theorem exists_of_scan_eq_error (ho : o.OnlyListens) {c c' : Cursor source} {flags : Flags}
    {filename : Text} {j j' : Journal} {failure : Failure}
    (h : o.scan filename c flags j = (.error failure, c', j')) :
    ∃ m, c.next flags = (.error m, c') ∧ failure = .diagnostic (m.diagnose filename) := by
  rcases hnext : c.next flags with ⟨m | t, c₁⟩
  · rw [ho.scan_of_error hnext] at h
    cases h
    exact ⟨m, rfl, rfl⟩
  · rw [ho.scan_of_ok hnext] at h
    cases h

end OnlyListens

end Observer

end ScriptScanner
