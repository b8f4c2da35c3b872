import ScriptScanner.Proofs.Feed.Replay
set_option autoImplicit false

/-!
# Tokens that are demanded

A demand takes the next token, and if it is not of the kind that is demanded, puts it back and
fails.  The failure is located where the first waiting token begins, and that is the token that was
put back: so the failure is about the token that a take would have taken, and the token is not lost.
-/

namespace ScriptScanner.Feed

variable {source : Source} {o : Observer} {z y : Feed source} {kind : TokenKind} {kindName : Text}
  {e : Entry}

/-! ## Failures -/

/-- A failure of the host's changes the journal alone, and its diagnostic is located where the next
token begins. -/
theorem exists_of_fail_eq {α : Type} {fault : Fault} {d : Diagnostic} {z' : Feed source}
    (h : z.fail (α := α) o fault = (.error (.diagnostic d), z')) :
    d = fault.diagnose z.nextLocation z.filename ∧ z' = z.withJournal z'.journal := by
  have hreport : (o.report (fault.diagnose z.nextLocation z.filename) z.journal).1 =
      .diagnostic d := Except.error.inj (congrArg Prod.fst h)
  have hfeed : (z.fail (α := α) o fault).2 = z' := congrArg Prod.snd h
  subst hfeed
  exact ⟨Observer.eq_of_report_eq_diagnostic hreport, rfl⟩

/-- To take a token never fails for want of a certain kind. -/
theorem code_of_take_eq_error {d : Diagnostic} (hz : z.Reachable o)
    (h : z.take o = (.error (.diagnostic d), y)) : d.code ≠ .missingToken := by
  obtain ⟨m, _, hrep⟩ := hz.exists_tape
  have htake := (agrees_take o hrep).outcome_eq
  rw [h] at htake
  exact Tape.code_of_takeFrom_eq_error m.pending (Prod.ext htake.symm rfl)

/-! ## A demand by what a take does -/

namespace Served

/-- Once the entry is put back, the next token begins where it begins. -/
theorem nextLocation_back (h : y.Served kind e) :
    Feed.nextLocation { y with ring := y.ring.back } = e.token.location := by
  have hwaits : 0 < y.ring.back.lookahead := Nat.succ_pos _
  have hahead : y.ring.back.ahead 1 = some e := (Ring.ahead_back y.ring 0).trans h.latest_eq
  unfold nextLocation
  simp only [hwaits, if_true, hahead]

theorem token_eq (h : y.Served kind e) : y.token = some e.token := by
  unfold token
  rw [h.latest_eq]
  rfl

end Served

theorem demand_of_take_eq_error {failure : Failure} (h : z.take o = (.error failure, y))
    (kindName : Text) : z.demand o kindName = (.error failure, y) := by
  unfold demand accept
  rw [h]

theorem demand_of_take_eq (hserved : y.Served kind e) (h : z.take o = (.ok kind, y))
    (hname : kind.name = kindName) : z.demand o kindName = (.ok e.token, y) := by
  have haccept : z.accept o kindName = (.ok true, y) := by
    unfold accept
    rw [h]
    exact if_pos hname
  unfold demand
  simp only [haccept, hserved.token_eq]

theorem demand_of_take_ne (hserved : y.Served kind e) (h : z.take o = (.ok kind, y))
    (hname : kind.name ≠ kindName) :
    z.demand o kindName = Feed.fail o (.missingToken kindName) { y with ring := y.ring.back } := by
  have haccept : z.accept o kindName = (.ok false, { y with ring := y.ring.back }) := by
    unfold accept
    rw [h]
    simp only [hname, if_false, hserved.putBack_eq o]
  unfold demand
  simp only [haccept]

/-- What a demand comes to: the failure of the take, the token that was taken, or a failure of its
own after the token was put back. -/
inductive Demanded (o : Observer) (z : Feed source) (kindName : Text) : Outcome source Token → Prop
  | fails (failure : Failure) (y : Feed source) (take_eq : z.take o = (.error failure, y)) :
      Demanded o z kindName (.error failure, y)
  | finds (kind : TokenKind) (e : Entry) (y : Feed source) (take_eq : z.take o = (.ok kind, y))
      (served : y.Served kind e) (name_eq : kind.name = kindName) :
      Demanded o z kindName (.ok e.token, y)
  | misses (kind : TokenKind) (e : Entry) (y : Feed source) (take_eq : z.take o = (.ok kind, y))
      (served : y.Served kind e) (name_ne : kind.name ≠ kindName) :
      Demanded o z kindName (Feed.fail o (.missingToken kindName) { y with ring := y.ring.back })

theorem demanded (hz : z.Reachable o) (kindName : Text) :
    Demanded o z kindName (z.demand o kindName) := by
  rcases htake : z.take o with ⟨failure | kind, y⟩
  · rw [demand_of_take_eq_error htake]
    exact .fails failure y htake
  · obtain ⟨-, e, hserved⟩ := exists_served_of_take hz htake
    by_cases hname : kind.name = kindName
    · rw [demand_of_take_eq hserved htake hname]
      exact .finds kind e y htake hserved hname
    · rw [demand_of_take_ne hserved htake hname]
      exact .misses kind e y htake hserved hname

/-- A demand that misses is about the token that was put back, and that token is taken next. -/
theorem Served.of_fail_eq {d : Diagnostic} {z' : Feed source} (h : y.Served kind e)
    (hfail : Feed.fail (α := Token) o (.missingToken kindName) { y with ring := y.ring.back } =
      (.error (.diagnostic d), z')) :
    d.location = e.token.location ∧ z'.flags = y.flags ∧ z'.cursor = y.cursor ∧
      z'.take o = (.ok kind, y.withJournal z'.journal) := by
  obtain ⟨hd, hz'⟩ := exists_of_fail_eq hfail
  rw [h.nextLocation_back] at hd
  refine ⟨by rw [hd]; rfl, by rw [hz']; rfl, by rw [hz']; rfl, ?_⟩
  have hagain := h.take_back o y.cursor z'.journal
  rwa [hz']

/-- A demand delivers the token that a take would deliver, if it is of the kind, and fails as a take
would fail.  Where it misses the kind, it is about the token that a take would deliver, which is of
another kind, and that token is taken next, without a move of the cursor. -/
theorem demand_blames_next (hz : z.Reachable o) (kindName : Text) :
    (∀ t z', z.demand o kindName = (.ok t, z') ↔
        t.kind.name = kindName ∧ z'.token = some t ∧ z.take o = (.ok t.kind, z')) ∧
      (∀ d z', z.demand o kindName = (.error (.diagnostic d), z') → d.code = .missingToken →
        ∃ t y, z.take o = (.ok t.kind, y) ∧ y.token = some t ∧ t.kind.name ≠ kindName ∧
          d.location = t.location ∧ z'.flags = z.flags ∧
          ∃ again, z'.take o = (.ok t.kind, again) ∧ again.token = some t ∧
            again.cursor = z'.cursor ∧ again = y.withJournal z'.journal) ∧
      ∀ d z', d.code.definition.category = .lexer →
        (z.demand o kindName = (.error (.diagnostic d), z') ↔
          z.take o = (.error (.diagnostic d), z')) := by
  refine ⟨?_, ?_, ?_⟩
  · intro t z'
    constructor
    · intro h
      have hdemanded := demanded hz kindName
      rw [h] at hdemanded
      generalize hx : ((.ok t, z') : Outcome source Token) = x at hdemanded
      cases hdemanded with
      | fails failure y take_eq => cases hx
      | finds kind e y take_eq served name_eq =>
        cases hx
        obtain rfl := served.kind_eq
        exact ⟨name_eq, served.token_eq, take_eq⟩
      | misses kind e y take_eq served name_ne => cases hx
    · rintro ⟨hname, htoken, htake⟩
      obtain ⟨-, e, hserved⟩ := exists_served_of_take hz htake
      rw [hserved.token_eq] at htoken
      rw [demand_of_take_eq hserved htake hname, Option.some.inj htoken]
  · intro d z' h hcode
    have hdemanded := demanded hz kindName
    generalize hx : z.demand o kindName = x at hdemanded h
    cases hdemanded with
    | fails failure y take_eq =>
      cases h
      exact absurd hcode (code_of_take_eq_error hz take_eq)
    | finds kind e y take_eq served name_eq => cases h
    | misses kind e y take_eq served name_ne =>
      obtain ⟨hlocation, hflags, hcursor, hagain⟩ := served.of_fail_eq h
      obtain ⟨hkept, -⟩ := exists_served_of_take hz take_eq
      obtain rfl := served.kind_eq
      exact ⟨e.token, y, take_eq, served.token_eq, name_ne, hlocation, hflags.trans hkept,
        y.withJournal z'.journal, hagain, served.token_eq, hcursor.symm, rfl⟩
  · intro d z' hlexer
    constructor
    · intro h
      have hdemanded := demanded hz kindName
      generalize hx : z.demand o kindName = x at hdemanded h
      cases hdemanded with
      | fails failure y take_eq =>
        cases h
        exact take_eq
      | finds kind e y take_eq served name_eq => cases h
      | misses kind e y take_eq served name_ne =>
        rw [(exists_of_fail_eq h).1] at hlexer
        cases hlexer
    · intro h
      exact demand_of_take_eq_error h kindName

/-- Where three line breaks wait and are blanks again, a number is demanded and missed.  The failure
is about the name behind the line breaks, and the name is taken next. -/
theorem demand_blames_next_breaksWaiting :
    breaksWaiting.Reachable .silent ∧ breaksWaiting.ring.lookahead = 3 ∧
      ∃ d z' t again, breaksWaiting.demand .silent TokenKind.number.name =
          (.error (.diagnostic d), z') ∧
        d.code = .missingToken ∧ d.location = ⟨⟨4, 1⟩, 6⟩ ∧ d.location = t.location ∧
        z'.take .silent = (.ok t.kind, again) ∧ again.token = some t ∧
        again.cursor = z'.cursor := by
  have hreachable : breaksWaiting.Reachable .silent := .after _ (.start _ _)
  obtain ⟨-, hmisses, -⟩ := demand_blames_next hreachable TokenKind.number.name
  have hcode : Observer.codeOf? (breaksWaiting.demand .silent TokenKind.number.name).1 =
      some .missingToken := by decide +kernel
  have hplace : (breaksWaiting.take .silent).2.token.map Token.location = some ⟨⟨4, 1⟩, 6⟩ := by
    decide +kernel
  rcases hdemand : breaksWaiting.demand .silent TokenKind.number.name with
    ⟨(d | message) | t, z'⟩
  · rw [hdemand] at hcode
    have hmissing : d.code = .missingToken := Option.some.inj hcode
    obtain ⟨t, y, htake, htoken, -, hlocation, -, again, hagain, hlatest, hcursor, -⟩ :=
      hmisses d z' hdemand hmissing
    rw [htake, htoken] at hplace
    exact ⟨hreachable, by decide +kernel, d, z', t, again, rfl, hmissing,
      hlocation.trans (Option.some.inj hplace), hlocation, hagain, hlatest, hcursor⟩
  · rw [hdemand] at hcode
    cases hcode
  · rw [hdemand] at hcode
    cases hcode

end ScriptScanner.Feed
