import ScriptScanner.Proofs.Feed.History
import ScriptScanner.Proofs.Feed.LookAhead
set_option autoImplicit false

/-!
# Tokens that are not accepted

A parser that asks whether the next token is of some kind, and is told that it is not, expects to
stand where it stood.  The token is taken and put back, so it does, unless the take passed over
waiting line breaks: those are not put back, and the parser is left on a later line.
-/

namespace ScriptScanner

namespace Tape

variable {source : Source} {m m' : Tape source} {o : Observer}

/-! ## Taking and putting back -/

/-- How a tape is left by a take that succeeds and is followed by putting back: the waiting line
breaks that are passed over stay consumed, and the next token waits. -/
inductive Rejects (o : Observer) (m : Tape source) : Tape source → Prop
  | waiting (passed : List Entry) (e : Entry) (rest : List Entry)
      (pending_eq : m.pending = passed ++ e :: rest)
      (passes : ∀ e ∈ passed, e.isNewline = true ∧ m.flags.newlines = false)
      (stops : (!e.isNewline || m.flags.newlines) = true) :
      Rejects o m { m with consumed := passed.reverse ++ m.consumed, pending := e :: rest }
  | fresh (passes : ∀ e ∈ m.pending, e.isNewline = true ∧ m.flags.newlines = false)
      (t : Token) (cursor : Cursor source) (journal : Journal)
      (scan_eq : o.scan m.filename m.cursor m.flags m.journal = (.ok t, cursor, journal)) :
      Rejects o m { m with
        cursor, journal, consumed := m.pending.reverse ++ m.consumed,
        pending := [⟨t, cursor.line⟩] }

/-- A line break that is passed over first may be counted among the passed ones. -/
theorem Rejects.of_move {e : Entry} {rest : List Entry}
    (he : e.isNewline = true ∧ m.flags.newlines = false) (h : Rejects o (m.move e rest) m') :
    Rejects o { m with pending := e :: rest } m' := by
  have hreverse : ∀ passed : List Entry,
      passed.reverse ++ (m.move e rest).consumed = (e :: passed).reverse ++ m.consumed := by
    intro passed
    rw [move, List.reverse_cons, List.append_assoc, List.singleton_append]
  cases h with
  | waiting passed e' rest' hpending hpasses hstops =>
    rw [hreverse]
    refine .waiting (m := { m with pending := e :: rest }) (e :: passed) e' rest' ?_ ?_ hstops
    · exact congrArg (e :: ·) hpending
    · exact List.forall_mem_cons.mpr ⟨he, hpasses⟩
  | fresh hpasses t cursor journal hscan =>
    rw [hreverse]
    exact .fresh (m := { m with pending := e :: rest }) (List.forall_mem_cons.mpr ⟨he, hpasses⟩)
      t cursor journal hscan

/-- A take that succeeds has one entry on top of what a rejection leaves consumed. -/
theorem exists_rejects_of_takeFrom {kind : TokenKind} (pending : List Entry)
    (h : m.takeFrom o pending = (.ok kind, m')) :
    ∃ e rest, m'.consumed = e :: rest ∧ Rejects o { m with pending }
      { m' with consumed := rest, pending := e :: m'.pending } := by
  induction pending generalizing m with
  | nil =>
    rw [takeFrom, scan] at h
    split at h
    · cases h
    · next t cursor journal hscan =>
      cases h
      exact ⟨_, _, rfl, .fresh (List.forall_mem_nil _) t cursor journal hscan⟩
  | cons e rest ih =>
    rw [takeFrom] at h
    split at h
    · next hstops =>
      cases h
      exact ⟨_, _, rfl, .waiting [] e rest rfl (List.forall_mem_nil _) hstops⟩
    · next hpass =>
      obtain ⟨e', rest', hconsumed, hrejects⟩ := ih h
      have he : e.isNewline = true ∧ m.flags.newlines = false := by
        simpa using hpass
      exact ⟨e', rest', hconsumed, .of_move he hrejects⟩

/-- A token that is not accepted is put back. -/
theorem rejects_of_accept_eq_ok_false {kindName : Text}
    (h : m.accept o kindName = (.ok false, m')) : m.Rejects o m' := by
  rw [accept] at h
  split at h
  · cases h
  · next kind m₁ htake =>
    obtain ⟨e, rest, hconsumed, hrejects⟩ := exists_rejects_of_takeFrom m.pending htake
    split at h
    · cases h
    · split at h
      · cases h
      · next hback =>
        cases h
        rw [putBack, hconsumed] at hback
        split at hback
        · cases hback
        · cases hback
          exact hrejects

/-- A failure of the host's keeps what is consumed and what waits, and its diagnostic is about the
fault. -/
theorem of_fail_eq {α : Type} {fault : Fault} {d : Diagnostic}
    (h : m.fail (α := α) o fault = (.error (.diagnostic d), m')) :
    d.code = fault.code ∧ m'.consumed = m.consumed ∧ m'.pending = m.pending := by
  have hreport : (o.report (fault.diagnose m.nextLocation m.filename) m.journal).1 =
      .diagnostic d := Except.error.inj (congrArg Prod.fst h)
  rw [Observer.eq_of_report_eq_diagnostic hreport]
  cases congrArg Prod.snd h
  exact ⟨rfl, rfl, rfl⟩

/-- To take a token never fails for want of a certain kind. -/
theorem code_of_takeFrom_eq_error {d : Diagnostic} (pending : List Entry)
    (h : m.takeFrom o pending = (.error (.diagnostic d), m')) : d.code ≠ .missingToken := by
  induction pending generalizing m with
  | nil =>
    rw [takeFrom, scan] at h
    split at h
    · next hscan =>
      cases h
      obtain ⟨fault, hnext, rfl⟩ := Observer.exists_of_scan_eq_diagnostic hscan
      intro hcode
      have hlexical := Cursor.isLexical_of_next_eq_error hnext
      rw [Fault.IsLexical] at hlexical
      change fault.fault.code = .missingToken at hcode
      rw [hcode] at hlexical
      cases hlexical
    · cases h
  | cons e rest ih =>
    rw [takeFrom] at h
    split at h
    · cases h
    · exact ih h

theorem code_of_accept_eq_error {kindName : Text} {d : Diagnostic}
    (h : m.accept o kindName = (.error (.diagnostic d), m')) : d.code ≠ .missingToken := by
  rw [accept] at h
  split at h
  · next htake =>
    cases h
    exact code_of_takeFrom_eq_error _ htake
  · split at h
    · cases h
    · split at h
      · next hback =>
        cases h
        rw [putBack] at hback
        split at hback
        · rw [(of_fail_eq hback).1]
          exact Code.noConfusion
        · split at hback
          · rw [(of_fail_eq hback).1]
            exact Code.noConfusion
          · cases hback
      · cases h

/-- A demand that fails for want of a kind has put the token back before. -/
theorem exists_rejects_of_demand {kindName : Text} {d : Diagnostic}
    (h : m.demand o kindName = (.error (.diagnostic d), m')) (hcode : d.code = .missingToken) :
    ∃ m₁, m.Rejects o m₁ ∧ m'.consumed = m₁.consumed ∧ m'.pending = m₁.pending := by
  rw [demand] at h
  split at h
  · next haccept =>
    cases h
    exact absurd hcode (code_of_accept_eq_error haccept)
  · next m₁ haccept =>
    exact ⟨m₁, rejects_of_accept_eq_ok_false haccept, (of_fail_eq h).2⟩
  · split at h
    · cases h
    · rw [(of_fail_eq h).1] at hcode
      cases hcode

/-! ## Lines -/

/-- The line that a parser sees is not beyond a place that no consumed token reaches beyond. -/
theorem line_le_lineAt (hm : m.cursor.Follows m.history) {offset : Nat}
    (hle : ∀ e ∈ m.consumed, e.token.stop ≤ offset) : m.line ≤ source.text.lineAt offset := by
  cases hc : m.consumed with
  | nil =>
    rw [line, hc, Text.lineAt]
    change (1 : Int) ≤ _
    omega
  | cons e rest =>
    have he : e ∈ m.history := by
      rw [history, hc, List.reverse_cons]
      exact List.mem_append_left _ (List.mem_append_right _ List.mem_cons_self)
    obtain ⟨start, stop, hcovers, hline⟩ := hm.isFrom e he
    have hstop : (stop : Int) ≤ offset := by
      rw [← hcovers.stop_eq]
      exact hle e (hc ▸ List.mem_cons_self)
    rw [line, hc]
    change e.lineAfter ≤ _
    rw [hline]
    exact Text.lineAt_mono _ (Int.ofNat_le.mp hstop)

/-- Waiting line breaks that are passed over lead to a later line. -/
theorem line_lt_of_passed (hm : m.cursor.Follows m.history) {passed rest : List Entry}
    (hpending : m.pending = passed ++ rest) (hpasses : ∀ e ∈ passed, e.isNewline = true)
    (hne : passed ≠ []) (hconsumed : m'.consumed = passed.reverse ++ m.consumed) :
    m.line < m'.line := by
  have hlast : passed.getLast hne ∈ passed := List.getLast_mem hne
  have hwaits : passed.getLast hne ∈ m.pending := by
    rw [hpending]
    exact List.mem_append_left _ hlast
  obtain ⟨start, stop, hcovers, hlineAfter⟩ :=
    hm.isFrom _ (List.mem_append_right m.consumed.reverse hwaits)
  obtain ⟨hfeed, rfl⟩ := hcovers.lineFeed (of_decide_eq_true (hpasses _ hlast))
  have hbefore : m.line ≤ source.text.lineAt start := by
    refine line_le_lineAt hm fun e he => ?_
    rw [← hcovers.start_eq]
    exact (List.pairwise_append.mp hm.ordered).2.2 e (List.mem_reverse.mpr he) _ hwaits
  have hline : m'.line = (passed.getLast hne).lineAfter := by
    rw [line, hconsumed, List.head?_append, List.head?_reverse, List.getLast?_eq_some_getLast hne]
    rfl
  rw [hline, hlineAfter, Text.lineAt_succ_of_lineFeed hfeed]
  exact Int.lt_add_one_of_le hbefore

/-! ## Looking ahead -/

/-- What a look ahead within the line makes of the next token. -/
def kindWithinLine (m : Tape source) (t : Token) : TokenKind :=
  if t.line ≠ m.line then .newline else t.kind

/-- Once a token waits, the look ahead is about that token. -/
theorem peekWithinLine_of_ensurePending (room : Option Nat) {m₁ : Tape source} {e : Entry}
    {rest : List Entry} (h : (m.setNewlines true).ensurePending o = (.ok (), m₁))
    (hp : m₁.pending = e :: rest) (hflags : m₁.flags.newlines = true)
    (hconsumed : m₁.consumed = m.consumed) :
    (m.peekWithinLine room o).1 = .ok (m.kindWithinLine e.token) := by
  have hset : (m.setNewlines true).flags.newlines = true := rfl
  have hline : m₁.line = m.line := by rw [line, line, hconsumed]
  rw [peekWithinLine, peek]
  simp only [hset, if_true, h, hp, List.head?_cons, hflags, Bool.true_and, hline, kindWithinLine,
    decide_eq_true_eq]
  split
  · rfl
  · rfl

theorem peekWithinLine_of_pending (room : Option Nat) (o : Observer) {e : Entry}
    {rest : List Entry} (hp : m.pending = e :: rest) :
    (m.peekWithinLine room o).1 = .ok (m.kindWithinLine e.token) := by
  have hwaits : (m.setNewlines true).pending ≠ [] := List.ne_nil_of_mem (hp ▸ List.mem_cons_self)
  exact peekWithinLine_of_ensurePending room (ensurePending_of_waiting o hwaits) hp rfl rfl

theorem peekWithinLine_of_scan (room : Option Nat) {t : Token} {cursor : Cursor source}
    {journal : Journal} (hp : m.pending = [])
    (h : o.scan m.filename m.cursor ⟨true, m.flags.operand⟩ m.journal = (.ok t, cursor, journal)) :
    (m.peekWithinLine room o).1 = .ok (m.kindWithinLine t) := by
  have hnone : (m.setNewlines true).pending = [] := hp
  have hensure : (m.setNewlines true).ensurePending o =
      (.ok (), (m.setNewlines true).look t cursor journal) := ensurePending_of_ok hnone h
  exact peekWithinLine_of_ensurePending room hensure rfl rfl rfl

/-! ## What a rejection leaves -/

/-- The next take passes over a waiting line break first. -/
def PassesNewline (m : Tape source) : Prop :=
  m.flags.newlines = false ∧ m.pending.head?.any Entry.isNewline = true

/-- A rejection that passes over a line break leaves the parser on a later line. -/
theorem Rejects.line_lt (h : m.Rejects o m') (hm : m.cursor.Follows m.history)
    (hpasses : m.PassesNewline) : m.line < m'.line := by
  obtain ⟨hflags, hhead⟩ := hpasses
  cases h with
  | waiting passed e rest hpending hpassed hstops =>
    refine line_lt_of_passed hm hpending (fun f hf => (hpassed f hf).1) ?_ rfl
    rintro rfl
    rw [hpending, List.nil_append, List.head?_cons, Option.any_some] at hhead
    rw [hhead, hflags] at hstops
    cases hstops
  | fresh hpassed t cursor journal hscan =>
    refine line_lt_of_passed hm (List.append_nil _).symm (fun f hf => (hpassed f hf).1) ?_ rfl
    intro hnil
    rw [hnil] at hhead
    cases hhead

/-- No other rejection passes over anything. -/
theorem eq_nil_of_passed (hpasses : ¬ m.PassesNewline) {passed rest : List Entry}
    (hpending : m.pending = passed ++ rest)
    (hpassed : ∀ e ∈ passed, e.isNewline = true ∧ m.flags.newlines = false) : passed = [] := by
  cases passed with
  | nil => rfl
  | cons e others =>
    obtain ⟨hnewline, hflags⟩ := hpassed e List.mem_cons_self
    refine absurd ⟨hflags, ?_⟩ hpasses
    rw [hpending, List.cons_append, List.head?_cons, Option.any_some]
    exact hnewline

/-- Any other rejection leaves what was consumed as it was. -/
theorem Rejects.consumed_eq (h : m.Rejects o m') (hpasses : ¬ m.PassesNewline) :
    m'.consumed = m.consumed := by
  cases h with
  | waiting passed e rest hpending hpassed hstops =>
    rw [eq_nil_of_passed hpasses hpending hpassed]
    rfl
  | fresh hpassed t cursor journal hscan =>
    rw [eq_nil_of_passed hpasses (List.append_nil _).symm hpassed]
    rfl

/-- A fresh token is for a look ahead within the line what that look ahead would have scanned. -/
theorem peekWithinLine_of_fresh (hm : m.cursor.Follows m.history) (hnil : m.pending = [])
    (ho : o.LetsTokensPass) {t : Token} {cursor : Cursor source}
    (hnext : m.cursor.next m.flags = (.ok t, cursor)) (room : Option Nat) :
    (m.peekWithinLine room o).1 = .ok (m.kindWithinLine t) := by
  rcases hflags : m.flags with ⟨newlines, operand⟩
  rw [hflags] at hnext
  have hpeek : ∀ t' cursor', m.cursor.next ⟨true, operand⟩ = (.ok t', cursor') →
      (m.peekWithinLine room o).1 = .ok (m.kindWithinLine t') := by
    intro t' cursor' hnext'
    obtain ⟨journal, hscan⟩ := ho.exists_scan_eq hnext' m.filename m.journal
    have hflagged : o.scan m.filename m.cursor ⟨true, m.flags.operand⟩ m.journal =
        (.ok t', cursor', journal) := by
      rw [hflags]
      exact hscan
    exact peekWithinLine_of_scan room hnil hflagged
  cases newlines with
  | true => exact hpeek t cursor hnext
  | false =>
    rcases hm.inPlace.next_true_of_next_false hnext with hsame | ⟨t', cursor', hnext', hkind, hlt⟩
    · exact hpeek t cursor hsame
    · -- the line break comes after all that was consumed, and before the token
      obtain ⟨start, hle, hcovers, -⟩ := hm.inPlace.exists_covers_of_next_eq_ok hnext'
      have hline : m.line ≤ t'.line := by
        rw [hcovers.line_eq]
        refine line_le_lineAt hm fun e he => ?_
        have hstop := hm.stop_le e (List.mem_append_left _ (List.mem_reverse.mpr he))
        exact Int.le_trans hstop (Int.ofNat_le.mpr hle)
      have hnewline : m.kindWithinLine t' = .newline := by
        unfold kindWithinLine
        split
        · rfl
        · exact hkind
      have hlater : m.kindWithinLine t = .newline :=
        if_pos (Int.ne_of_gt (Int.lt_of_le_of_lt hline hlt))
      rw [hpeek t' cursor' hnext', hnewline, hlater]

/-- Any other rejection leaves a token waiting that a look ahead within the line would have met. -/
theorem Rejects.exists_pending (h : m.Rejects o m') (hm : m.cursor.Follows m.history)
    (hpasses : ¬ m.PassesNewline) :
    ∃ e rest, m'.pending = e :: rest ∧ (o.LetsTokensPass → ∀ room,
      (m.peekWithinLine room o).1 = .ok (m.kindWithinLine e.token)) := by
  cases h with
  | waiting passed e rest hpending hpassed hstops =>
    have hwaits : m.pending = e :: rest := by
      rw [hpending, eq_nil_of_passed hpasses hpending hpassed, List.nil_append]
    exact ⟨e, rest, rfl, fun _ room => peekWithinLine_of_pending room o hwaits⟩
  | fresh hpassed t cursor journal hscan =>
    have hnil := eq_nil_of_passed hpasses (List.append_nil _).symm hpassed
    exact ⟨_, [], rfl, fun ho room =>
      peekWithinLine_of_fresh hm hnil ho (Observer.next_eq_ok_of_scan hscan) room⟩

end Tape

namespace Feed

variable {source : Source} {o : Observer} {z z' : Feed source}

/-- The next take passes over a waiting line break first. -/
def PassesNewline (z : Feed source) : Prop :=
  z.flags.newlines = false ∧ z.ring.pending.head?.any Entry.isNewline = true

/-- The next token is asked for, or demanded, to be of a kind that it is not of. -/
def Rejected (o : Observer) (kindName : Text) (z z' : Feed source) : Prop :=
  z.accept o kindName = (.ok false, z') ∨
    ∃ d, z.demand o kindName = (.error (.diagnostic d), z') ∧ d.code = .missingToken

theorem Represents.passesNewline_iff {m : Tape source} (h : z.Represents m) :
    z.PassesNewline ↔ m.PassesNewline := by
  rw [PassesNewline, Tape.PassesNewline, h.flags, h.ring.pending_eq]

/-- A rejection by a feed is one by the tape that it represents. -/
theorem Represents.exists_rejects {m : Tape source} {kindName : Text} (hrep : z.Represents m)
    (h : z.Rejected o kindName z') :
    ∃ m₁ m' : Tape source, m.Rejects o m₁ ∧ z'.Represents m' ∧ m'.consumed = m₁.consumed ∧
      m'.pending = m₁.pending := by
  rcases h with haccept | ⟨d, hdemand, hcode⟩
  · have hagrees := agrees_accept o kindName hrep
    rw [haccept] at hagrees
    generalize hm : m.accept o kindName = y at hagrees
    obtain ⟨_, _, m', hrep'⟩ := hagrees
    exact ⟨m', m', Tape.rejects_of_accept_eq_ok_false hm, hrep', rfl, rfl⟩
  · have hagrees := agrees_demand o kindName hrep
    rw [hdemand] at hagrees
    generalize hm : m.demand o kindName = y at hagrees
    obtain ⟨_, _, m', hrep'⟩ := hagrees
    obtain ⟨m₁, hrejects, hconsumed, hpending⟩ := Tape.exists_rejects_of_demand hm hcode
    exact ⟨m₁, m', hrejects, hrep', hconsumed, hpending⟩

/-- A parser that is told that the next token is not of some kind stands where it stood, and a look
ahead within the line finds what it would have found, exactly if no waiting line break had to be
passed over to the token.  Otherwise the parser is left on a later line. -/
theorem unchanged_of_rejected_iff {kindName : Text} (hz : z.Reachable o)
    (h : z.Rejected o kindName z') :
    ((z'.token = z.token ∧ z'.line = z.line ∧ z'.isDone = z.isDone ∧
        (o.LetsTokensPass → (z'.peekWithinLine o).1 = (z.peekWithinLine o).1)) ↔
      ¬ z.PassesNewline) ∧ (z.PassesNewline → z.line < z'.line) := by
  obtain ⟨m, hm, hrep⟩ := hz.exists_tape
  have hfollows := (Tape.invariant_follows source).of_reachable hm
  obtain ⟨m₁, m', hrejects, hrep', hconsumed, hpending⟩ := hrep.exists_rejects h
  have hlater : z.PassesNewline → z.line < z'.line := by
    intro hpasses
    have hline : m'.line = m₁.line := by rw [Tape.line, Tape.line, hconsumed]
    rw [hrep.line_eq, hrep'.line_eq, hline]
    exact hrejects.line_lt hfollows (hrep.passesNewline_iff.mp hpasses)
  refine ⟨⟨?_, fun hpasses => ?_⟩, hlater⟩
  · rintro ⟨_, hline, _⟩ hpasses
    exact absurd hline (Int.ne_of_gt (hlater hpasses))
  · rw [hrep.passesNewline_iff] at hpasses
    have hsame : m'.consumed = m.consumed := hconsumed.trans (hrejects.consumed_eq hpasses)
    have htoken : m'.token = m.token := by rw [Tape.token, Tape.token, hsame]
    have hline : m'.line = m.line := by rw [Tape.line, Tape.line, hsame]
    refine ⟨?_, ?_, ?_, fun ho => ?_⟩
    · rw [hrep'.token_eq, hrep.token_eq, htoken]
    · rw [hrep'.line_eq, hrep.line_eq, hline]
    · rw [hrep'.isDone_eq, hrep.isDone_eq, Tape.isDone, Tape.isDone, htoken]
    · obtain ⟨e, rest, hwaits, hpeek⟩ := hrejects.exists_pending hfollows hpasses
      rw [(agrees_peekWithinLine o hrep').outcome_eq, (agrees_peekWithinLine o hrep).outcome_eq,
        hpeek ho, Tape.peekWithinLine_of_pending _ o (hpending.trans hwaits)]
      rw [Tape.kindWithinLine, Tape.kindWithinLine, hline]

/-- A name on each of two lines. -/
def twoLines : Source := ⟨"a\nb", by decide +kernel⟩

/-- The feed of the two lines before anything is asked. -/
def twoLinesStart : Feed twoLines := start twoLines Source.anonymousName ⟨false, true⟩

/-- At the beginning the first name is asked for as a number, and the parser stands where it stood.
-/
theorem unchanged_of_rejected_twoLines :
    twoLinesStart.Reachable .silent ∧
      ∃ z', twoLinesStart.Rejected .silent TokenKind.number.name z' ∧
        z'.token = twoLinesStart.token ∧ z'.line = twoLinesStart.line ∧
        (z'.peekWithinLine .silent).1 = (twoLinesStart.peekWithinLine .silent).1 := by
  have hreachable : twoLinesStart.Reachable .silent := .start _ _
  have hoption : (twoLinesStart.accept .silent TokenKind.number.name).1.toOption = some false := by
    decide +kernel
  have hpasses : ¬ twoLinesStart.PassesNewline := fun h => Bool.noConfusion h.2
  rcases haccept : twoLinesStart.accept .silent TokenKind.number.name with ⟨outcome, z'⟩
  rw [haccept] at hoption
  cases outcome with
  | error failure => cases hoption
  | ok accepted =>
    cases hoption
    obtain ⟨htoken, hline, _, hpeek⟩ :=
      (unchanged_of_rejected_iff hreachable (.inl haccept)).1.mpr hpasses
    exact ⟨hreachable, z', .inl haccept, htoken, hline, hpeek fun _ _ => rfl⟩

/-- After the first name is taken, and a look ahead within its line has scanned the line break. -/
def lookedAhead : Feed twoLines :=
  ((twoLinesStart.respond .silent .take).2.respond .silent .peekWithinLine).2

/-- The second name is asked for as a number: the parser is not told so, but stands beyond the line
break, and the line break is not seen again. -/
theorem rejected_lookedAhead_changed :
    lookedAhead.Reachable .silent ∧
      (lookedAhead.accept .silent TokenKind.number.name).1.toOption = some false ∧
      (lookedAhead.accept .silent TokenKind.number.name).2.line ≠ lookedAhead.line ∧
      (lookedAhead.accept .silent TokenKind.number.name).2.token ≠ lookedAhead.token ∧
      ((lookedAhead.accept .silent TokenKind.number.name).2.peekWithinLine .silent).1.toOption ≠
        (lookedAhead.peekWithinLine .silent).1.toOption := by
  refine ⟨.respond _ (.respond _ (.start _ _)), ?_⟩
  decide +kernel

end Feed

end ScriptScanner
