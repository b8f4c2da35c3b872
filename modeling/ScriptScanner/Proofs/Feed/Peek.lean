import ScriptScanner.Proofs.Feed.Slots
set_option autoImplicit false

/-!
# Looking ahead with line breaks as blanks

With line breaks as blanks, taking passes over the line breaks that wait, while a look ahead drops
them.  Either way the first entry that is no line break comes next, and where none waits, the same
scan is made.  So the look tells what the taking would do, failures included, and leaves the parser
where it stood.
-/

namespace ScriptScanner

namespace Tape

variable {source : Source} {o : Observer} {m x y : Tape source} {room : Option Nat} {e : Entry}
  {rest : List Entry}

/-! ## The first entry that is no line break -/

theorem takeFrom_cons_of_plain (he : e.isNewline = false) :
    m.takeFrom o (e :: rest) = (.ok e.token.kind, m.move e rest) := by
  have hstop : (!e.isNewline || m.flags.newlines) = true := by rw [he]; rfl
  rw [takeFrom, if_pos hstop]

theorem takeFrom_cons_of_lineBreak (hm : m.flags.newlines = false) (he : e.isNewline = true) :
    m.takeFrom o (e :: rest) = (m.move e rest).takeFrom o rest := by
  have hpass : ¬ (!e.isNewline || m.flags.newlines) = true := by
    rw [he, hm]
    exact Bool.false_ne_true
  rw [takeFrom, if_neg hpass]

/-- The tape on which all waiting entries are passed over. -/
def passAll (m : Tape source) (pending : List Entry) : Tape source :=
  { m with consumed := pending.reverse ++ m.consumed, pending := [] }

/-- Where only line breaks wait, taking scans behind them. -/
theorem takeFrom_of_only_lineBreaks (hm : m.flags.newlines = false) (pending : List Entry)
    (h : pending.filter (fun e => !e.isNewline) = []) :
    m.takeFrom o pending = (m.passAll pending).scan o := by
  induction pending generalizing m with
  | nil => rfl
  | cons e rest ih =>
    cases he : e.isNewline with
    | false =>
      rw [List.filter_cons_of_pos (by rw [he]; rfl)] at h
      cases h
    | true =>
      rw [List.filter_cons_of_neg (by rw [he]; exact Bool.false_ne_true)] at h
      have hmode : (m.move e rest).flags.newlines = false := hm
      rw [takeFrom_cons_of_lineBreak hm he, ih hmode h, passAll, passAll, move,
        List.reverse_cons, List.append_assoc, List.singleton_append]

/-- Otherwise taking ends at the first entry that is no line break. -/
theorem exists_takeFrom_of_filter (hm : m.flags.newlines = false) (pending : List Entry)
    (h : pending.filter (fun e => !e.isNewline) = e :: rest) :
    ∃ older later, m.takeFrom o pending =
      (.ok e.token.kind, { m with consumed := e :: older, pending := later }) := by
  induction pending generalizing m with
  | nil => cases h
  | cons f others ih =>
    cases hf : f.isNewline with
    | false =>
      rw [List.filter_cons_of_pos (by rw [hf]; rfl)] at h
      cases h
      exact ⟨m.consumed, others, takeFrom_cons_of_plain hf⟩
    | true =>
      rw [List.filter_cons_of_neg (by rw [hf]; exact Bool.false_ne_true)] at h
      have hmode : (m.move f others).flags.newlines = false := hm
      rw [takeFrom_cons_of_lineBreak hm hf]
      exact ih hmode h

/-! ## Looking -/

/-- With line breaks as blanks, a look drops the waiting ones and sees to it that a token waits. -/
theorem peek_of_blanks (hm : m.flags.newlines = false) {failure : Failure}
    (h : (m.dropPendingNewlines room).ensurePending o = (.error failure, x)) :
    m.peek room o = (.error failure, x) := by
  rw [peek]
  simp only [hm, Bool.false_eq_true, if_false, h]

theorem peek_of_blanks_ok (hm : m.flags.newlines = false)
    (h : (m.dropPendingNewlines room).ensurePending o = (.ok (), x))
    (hx : x.flags.newlines = false) (hp : x.pending = e :: rest) :
    m.peek room o = (.ok e.token.kind, x) := by
  rw [peek]
  simp only [hm, Bool.false_eq_true, if_false, h, hp, List.head?_cons, hx, Bool.false_and]

/-- To look again changes nothing. -/
theorem peek_of_plain (room : Option Nat) (o : Observer) (hm : m.flags.newlines = false)
    (hp : m.pending = e :: rest) (hplain : ∀ f ∈ m.pending, f.isNewline = false) :
    m.peek room o = (.ok e.token.kind, m) := by
  have hwaits : m.pending ≠ [] := hp ▸ List.cons_ne_nil e rest
  refine peek_of_blanks_ok hm ?_ hm hp
  rw [dropPendingNewlines_of_plain room hplain, ensurePending_of_waiting o hwaits]

/-- To drop waiting line breaks leaves the latest entry. -/
theorem head?_consumed_dropPendingNewlines (hp : m.pending.length ≤ Ring.maxPending) :
    (m.dropPendingNewlines ringRoom).consumed.head? = m.consumed.head? := by
  have hroom : 4 - m.pending.length ≠ 0 := by
    have hlen : m.pending.length ≤ 3 := hp
    omega
  rw [dropPendingNewlines]
  split
  · rfl
  · change (m.consumed.take (4 - m.pending.length)).head? = m.consumed.head?
    rw [List.head?_take, if_neg hroom]

/-! ## The look and the taking -/

/-- A parser sees the same of both tapes, apart from the cursor. -/
structure Alike (x m : Tape source) : Prop where
  head?_eq : x.consumed.head? = m.consumed.head?
  flags_eq : x.flags = m.flags

namespace Alike

theorem token_eq (h : Alike x m) : x.token = m.token := by rw [token, token, h.head?_eq]

theorem line_eq (h : Alike x m) : x.line = m.line := by rw [line, line, h.head?_eq]

theorem isDone_eq (h : Alike x m) : x.isDone = m.isDone := by rw [isDone, isDone, h.token_eq]

theorem view_eq (h : Alike x m) (hcursor : x.cursor = m.cursor) : x.view = m.view := by
  rw [view, view, h.token_eq, h.line_eq, h.isDone_eq, h.flags_eq, hcursor]

end Alike

/-- The first outcome, of a look, foretells the second one, of a taking. -/
inductive Foretells (m : Tape source) : Outcome source TokenKind → Outcome source TokenKind → Prop
  | fails (failure : Failure) (x y : Tape source) (alike : Alike x m) :
      Foretells m (.error failure, x) (.error failure, y)
  | finds (e : Entry) (rest : List Entry) (x y : Tape source) (alike : Alike x m)
      (waits : x.pending = e :: rest) (plain : ∀ f ∈ x.pending, f.isNewline = false)
      (latest : y.consumed.head? = some e) (cursor_eq : y.cursor = x.cursor)
      (flags_eq : y.flags = m.flags) :
      Foretells m (.ok e.token.kind, x) (.ok e.token.kind, y)

theorem foretells_peek_take (o : Observer) (hm : m.flags.newlines = false)
    (hp : m.pending.length ≤ Ring.maxPending) :
    Foretells m (m.peek ringRoom o) (m.take o) := by
  have hlatest := head?_consumed_dropPendingNewlines hp
  cases hkept : m.pending.filter (fun e => !e.isNewline) with
  | cons e rest =>
    have hwaits : (m.dropPendingNewlines ringRoom).pending = e :: rest := hkept
    have hplain : ∀ f ∈ (m.dropPendingNewlines ringRoom).pending, f.isNewline = false := by
      intro f hf
      have hkeeps := (List.mem_filter.mp hf).2
      rwa [Bool.not_eq_true'] at hkeeps
    have hensure := ensurePending_of_waiting o (hwaits ▸ List.cons_ne_nil e rest)
    obtain ⟨older, later, htake⟩ := exists_takeFrom_of_filter (o := o) hm m.pending hkept
    rw [peek_of_blanks_ok hm hensure hm hwaits, take, htake]
    exact .finds e rest _ _ ⟨hlatest, rfl⟩ hwaits hplain rfl rfl rfl
  | nil =>
    have hnone : (m.dropPendingNewlines ringRoom).pending = [] := hkept
    rw [take, takeFrom_of_only_lineBreaks hm m.pending hkept]
    rcases hscan : o.scan m.filename m.cursor m.flags m.journal with ⟨failure | t, c, j⟩
    · rw [peek_of_blanks hm (ensurePending_of_error hnone hscan),
        scan_of_error (m := m.passAll m.pending) hscan]
      exact .fails failure _ _ ⟨hlatest, rfl⟩
    · have hkind : t.kind ≠ .newline :=
        (plain_of_scan hscan).resolve_right (Bool.eq_false_iff.mp hm)
      rw [peek_of_blanks_ok hm (ensurePending_of_ok hnone hscan) hm rfl,
        scan_of_ok (m := m.passAll m.pending) hscan]
      refine .finds _ [] _ _ ⟨hlatest, rfl⟩ rfl ?_ rfl rfl rfl
      intro f hf
      obtain rfl := List.mem_singleton.mp hf
      exact decide_eq_false hkind

/-- A kind is accepted if and only if it is the one that is taken. -/
theorem accept_of_take {k : TokenKind} (hp : m.pending.length ≤ Ring.maxPending)
    (h : m.take o = (.ok k, y)) (kind : TokenKind) :
    (m.accept o kind.name).1 = .ok (decide (kind = k)) := by
  rw [accept, h]
  simp only
  split
  · next hname => rw [TokenKind.name_injective hname, decide_eq_true rfl]
  · next hname =>
    have hne : kind ≠ k := fun heq => hname (congrArg TokenKind.name heq.symm)
    obtain ⟨_, _, _, hback⟩ := exists_putBack_of_take hp h
    rw [hback, decide_eq_false hne]

end Tape

namespace Feed

variable {source : Source} {o : Observer} {z : Feed source}

/-- Where a parser sees the same of two tapes, it sees the same of their feeds. -/
theorem Represents.seen_eq {z' : Feed source} {m x : Tape source} (h : z.Represents m)
    (h' : z'.Represents x) (halike : x.Alike m) :
    z'.token = z.token ∧ z'.line = z.line ∧ z'.isDone = z.isDone ∧ z'.flags = z.flags := by
  rw [h'.token_eq, h'.line_eq, h'.isDone_eq, h'.flags, h.token_eq, h.line_eq, h.isDone_eq, h.flags]
  exact ⟨halike.token_eq, halike.line_eq, halike.isDone_eq, halike.flags_eq⟩

/-- A kind is accepted if and only if it is the one that is taken. -/
theorem Represents.accept_of_take {m y : Tape source} {k : TokenKind} (h : z.Represents m)
    (htake : m.take o = (.ok k, y)) (kind : TokenKind) :
    (z.accept o kind.name).1 = .ok (decide (kind = k)) := by
  rw [(agrees_accept o kind.name h).outcome_eq]
  exact Tape.accept_of_take h.ring.length_le htake kind

/-- To look again changes nothing. -/
theorem Represents.peek_of_plain {m : Tape source} {e : Entry} {rest : List Entry} (o : Observer)
    (h : z.Represents m) (hm : m.flags.newlines = false) (hp : m.pending = e :: rest)
    (hplain : ∀ f ∈ m.pending, f.isNewline = false) :
    (z.peek o).1 = .ok e.token.kind ∧ (z.peek o).2.cursor = z.cursor := by
  have hpeek := agrees_peek o h
  rw [Tape.peek_of_plain Tape.ringRoom o hm hp hplain] at hpeek
  exact ⟨hpeek.outcome_eq, hpeek.represents.cursor.trans h.cursor.symm⟩

/-- To take a waiting token that is no line break. -/
theorem Represents.take_of_plain {m : Tape source} {e : Entry} {rest : List Entry} (o : Observer)
    (h : z.Represents m) (hp : m.pending = e :: rest) (he : e.isNewline = false) :
    (z.take o).1 = .ok e.token.kind ∧ (z.take o).2.Represents (m.move e rest) := by
  have htake := agrees_take o h
  rw [Tape.take, hp, Tape.takeFrom_cons_of_plain he] at htake
  exact ⟨htake.outcome_eq, htake.represents⟩

/-- With line breaks as blanks, a look ahead leaves the parser where it stands.  It fails as a
taking would fail, or tells the kind of the token that a taking takes, before or after it, which is
never a line break and the only kind that would be accepted. -/
theorem peek_foretells_take (hz : z.Reachable o) (hnewlines : z.flags.newlines = false) :
    ((z.peek o).2.token = z.token ∧ (z.peek o).2.line = z.line ∧
        (z.peek o).2.isDone = z.isDone ∧ (z.peek o).2.flags = z.flags) ∧
      (∀ failure, (z.peek o).1 = .error failure ↔ (z.take o).1 = .error failure) ∧
      ∀ k z', z.peek o = (.ok k, z') → k ≠ .newline ∧
        ((z'.peek o).1 = .ok k ∧ (z'.peek o).2.cursor = z'.cursor) ∧
        (z.take o).1 = .ok k ∧
        ((z'.take o).1 = .ok k ∧ (z'.take o).2.view = (z.take o).2.view) ∧
        ∀ kind : TokenKind, (z.accept o kind.name).1 = .ok (decide (kind = k)) := by
  obtain ⟨m, _, hrep⟩ := hz.exists_tape
  have hm : m.flags.newlines = false := hrep.flags ▸ hnewlines
  have hforetells := Tape.foretells_peek_take o hm hrep.ring.length_le
  have haccept : ∀ k y, m.take o = (.ok k, y) → ∀ kind : TokenKind,
      (z.accept o kind.name).1 = .ok (decide (kind = k)) := fun _ _ => hrep.accept_of_take
  have hpeek := agrees_peek o hrep
  have htake := agrees_take o hrep
  generalize z.peek o = p at hpeek ⊢
  generalize m.peek Tape.ringRoom o = q at hpeek hforetells
  generalize z.take o = t at htake ⊢
  generalize m.take o = u at htake hforetells haccept
  obtain ⟨_, z₁, m₁, hrep₁⟩ := hpeek
  obtain ⟨_, z₂, m₂, hrep₂⟩ := htake
  cases hforetells with
  | fails failure _ _ alike =>
    refine ⟨hrep.seen_eq hrep₁ alike, fun _ => Iff.rfl, fun k z' heq => ?_⟩
    cases heq
  | finds e rest _ _ alike waits plain latest cursor_eq flags_eq =>
    refine ⟨hrep.seen_eq hrep₁ alike, fun _ => Iff.rfl, fun k z' heq => ?_⟩
    cases heq
    have hplain : e.isNewline = false := plain e (waits ▸ List.mem_cons_self)
    have hm₁ : m₁.flags.newlines = false := alike.flags_eq ▸ hm
    obtain ⟨hkind, hrep₃⟩ := hrep₁.take_of_plain o waits hplain
    have halike : (m₁.move e rest).Alike m₂ := ⟨latest.symm, alike.flags_eq.trans flags_eq.symm⟩
    refine ⟨of_decide_eq_false hplain, hrep₁.peek_of_plain o hm₁ waits plain, rfl, ⟨hkind, ?_⟩,
      haccept _ _ rfl⟩
    rw [hrep₃.view_eq, hrep₂.view_eq]
    exact halike.view_eq cursor_eq.symm

/-- The feed of three line breaks after they were put back: nothing but line breaks waits, and line
breaks are blanks again. -/
def breaksWaiting : Feed threeBreaks :=
  (Feed.start threeBreaks Source.anonymousName ⟨true, true⟩).after .silent (backOverBreaks.take 9)

/-- There a look tells that a name comes next, and takes none of the line breaks. -/
theorem peek_foretells_take_breaksWaiting :
    breaksWaiting.Reachable .silent ∧ breaksWaiting.flags.newlines = false ∧
      breaksWaiting.ring.lookahead = 3 ∧
      ∃ z', breaksWaiting.peek .silent = (.ok .identifier, z') ∧ z'.token = breaksWaiting.token ∧
        (z'.take .silent).2.view = (breaksWaiting.take .silent).2.view ∧
        (breaksWaiting.accept .silent TokenKind.newline.name).1 = .ok false := by
  have hreachable : breaksWaiting.Reachable .silent := .after _ (.start _ _)
  have hnewlines : breaksWaiting.flags.newlines = false := by decide +kernel
  obtain ⟨⟨htoken, _⟩, _, hfound⟩ := peek_foretells_take hreachable hnewlines
  have hkind : (breaksWaiting.peek .silent).1.toOption = some .identifier := by decide +kernel
  rcases hpeek : breaksWaiting.peek .silent with ⟨failure | k, z'⟩
  · rw [hpeek] at hkind
    cases hkind
  · rw [hpeek] at hkind htoken
    cases hkind
    obtain ⟨_, _, _, ⟨_, hview⟩, haccept⟩ := hfound _ z' hpeek
    exact ⟨hreachable, hnewlines, by decide +kernel, z', rfl, htoken, hview, haccept .newline⟩

end Feed

end ScriptScanner
