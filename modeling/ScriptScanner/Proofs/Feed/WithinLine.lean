import ScriptScanner.Proofs.Feed.Peek
set_option autoImplicit false

/-!
# Looking ahead for a line break

Where line breaks are scanned, a look ahead compares two lines that were noted at different times:
the line where the next token begins, and the line of the cursor right after the latest one.  Both
are the lines of places in the source, and the one place is not before the other.  So they differ
if and only if there is a line feed between the two tokens, however the tokens were scanned, put
back or passed over in the meantime.
-/

namespace ScriptScanner

namespace Tape

variable {source : Source} {o : Observer} {m x : Tape source} {room : Option Nat} {e : Entry}
  {rest : List Entry}

/-! ## The two lines -/

/-- Where the latest token ends, or the beginning of the source. -/
def stop (m : Tape source) : Int := (m.token.map fun t => t.stop).getD 0

/-- The line that a parser sees is the line where the latest token ends, and no waiting token begins
before. -/
theorem exists_stop_eq (hm : m.cursor.Follows m.history) :
    ∃ n : Nat, m.stop = n ∧ m.line = source.text.lineAt n ∧
      ∀ e ∈ m.pending, (n : Int) ≤ e.token.start := by
  cases hc : m.consumed with
  | nil =>
    refine ⟨0, by rw [stop, token, hc]; rfl, by rw [line, hc]; rfl, fun e he => ?_⟩
    obtain ⟨start, _, hcovers, _⟩ := hm.isFrom e (List.mem_append_right _ he)
    rw [hcovers.start_eq]
    exact Int.natCast_nonneg _
  | cons e others =>
    have he : e ∈ m.consumed.reverse := by
      rw [List.mem_reverse, hc]
      exact List.mem_cons_self
    obtain ⟨start, n, hcovers, hline⟩ := hm.isFrom e (List.mem_append_left _ he)
    refine ⟨n, ?_, ?_, fun f hf => ?_⟩
    · rw [stop, token, hc]
      exact hcovers.stop_eq
    · rw [line, hc]
      exact hline
    · rw [← hcovers.stop_eq]
      exact (List.pairwise_append.mp hm.ordered).2.2 e he f hf

/-- The next token begins on another line if and only if there is a line feed before it. -/
theorem line_ne_iff (hm : m.cursor.Follows m.history) (hp : m.pending = e :: rest) :
    e.token.line ≠ m.line ↔
      CodeUnit.lineFeed ∈ source.text.slice m.stop e.token.start := by
  have he : e ∈ m.pending := hp ▸ List.mem_cons_self
  obtain ⟨n, hstop, hline, hle⟩ := exists_stop_eq hm
  obtain ⟨start, _, hcovers, _⟩ := hm.isFrom e (List.mem_append_right _ he)
  have hbefore := hle e he
  rw [hcovers.start_eq] at hbefore
  rw [hstop, hline, hcovers.line_eq, hcovers.start_eq]
  exact Text.lineAt_ne_iff _ (Int.ofNat_le.mp hbefore)

/-! ## The look -/

theorem alike_ensurePending (o : Observer) (m : Tape source) : (m.ensurePending o).2.Alike m := by
  by_cases hp : m.pending = []
  · rcases hscan : o.scan m.filename m.cursor m.flags m.journal with ⟨failure | t, c, j⟩
    · rw [ensurePending_of_error hp hscan]
      exact ⟨rfl, rfl⟩
    · rw [ensurePending_of_ok hp hscan]
      exact ⟨rfl, rfl⟩
  · rw [ensurePending_of_waiting o hp]
    exact ⟨rfl, rfl⟩

theorem alike_peek (hm : m.flags.newlines = true) : (m.peek room o).2.Alike m := by
  rw [snd_peek, if_pos hm]
  exact alike_ensurePending o m

/-- A look that finds something tells what becomes of the next token within the line. -/
theorem exists_of_peek_eq_ok {k : TokenKind} (hm : m.flags.newlines = true)
    (h : m.peek room o = (.ok k, x)) :
    ∃ e rest, x.pending = e :: rest ∧ k = x.kindWithinLine e.token := by
  have halike := alike_ensurePending o m
  rw [peek] at h
  simp only [hm, if_true] at h
  split at h
  · cases h
  · next m₁ hensure =>
    rw [hensure] at halike
    have hmode : m₁.flags.newlines = true := halike.flags_eq ▸ hm
    cases hp : m₁.pending with
    | nil => exact absurd hp (pending_ne_nil_of_ensurePending hensure)
    | cons e rest =>
      simp only [hp, List.head?_cons, hmode, Bool.true_and, decide_eq_true_eq] at h
      refine ⟨e, rest, ?_⟩
      rw [kindWithinLine]
      split at h
      · next hline =>
        cases h
        exact ⟨hp, (if_pos hline).symm⟩
      · next hline =>
        cases h
        exact ⟨hp, (if_neg hline).symm⟩

end Tape

namespace Feed

variable {source : Source} {o : Observer} {z : Feed source}

/-- Where the latest token ends, or the beginning of the source. -/
def stop (z : Feed source) : Int := (z.token.map fun t => t.stop).getD 0

/-- The outcome of a look tells whether the source has a line break between the latest token and the
next one, or the next one is a line break, and its kind otherwise; and the parser stands where it
stood. -/
structure TellsLineBreak (z : Feed source) (x : Outcome source TokenKind) : Prop where
  kind_eq : ∀ k, x.1 = .ok k → ∃ e rest, x.2.ring.pending = e :: rest ∧
    (k = .newline ↔
      e.token.kind = .newline ∨ CodeUnit.lineFeed ∈ source.text.slice z.stop e.token.start) ∧
    (k ≠ .newline → k = e.token.kind)
  token_eq : x.2.token = z.token
  line_eq : x.2.line = z.line
  isDone_eq : x.2.isDone = z.isDone
  flags_eq : x.2.flags = z.flags

theorem Represents.tellsLineBreak {m : Tape source} (hrep : z.Represents m)
    (hm : m.cursor.Follows m.history) (hz : z.flags.newlines = true) :
    z.TellsLineBreak (z.peek o) := by
  have hmode : m.flags.newlines = true := hrep.flags ▸ hz
  have hpeek := agrees_peek o hrep
  have halike : (m.peek Tape.ringRoom o).2.Alike m := Tape.alike_peek hmode
  have hkept := (Tape.invariant_follows source).peek Tape.ringRoom o hm
  obtain ⟨htoken, hlines, hdone, hflags⟩ := hrep.seen_eq hpeek.represents halike
  refine ⟨fun k hk => ?_, htoken, hlines, hdone, hflags⟩
  rw [hpeek.outcome_eq] at hk
  obtain ⟨e, rest, hp, hkind⟩ := Tape.exists_of_peek_eq_ok hmode (Prod.ext hk rfl)
  have hline := Tape.line_ne_iff hkept.holds hp
  have hstop : (m.peek Tape.ringRoom o).2.stop = z.stop := by
    rw [Tape.stop, stop, halike.token_eq, hrep.token_eq]
  rw [hstop] at hline
  refine ⟨e, rest, hpeek.represents.ring.pending_eq.trans hp, ?_⟩
  rw [hkind, Tape.kindWithinLine, ← hline]
  split
  · next hne => exact ⟨iff_of_true rfl (.inr hne), fun hnot => absurd rfl hnot⟩
  · next heq => exact ⟨(or_iff_left heq).symm, fun _ => rfl⟩

/-- Whatever was asked before, a look within the line tells whether a line break comes next, and so
does every look while line breaks are scanned. -/
theorem tellsLineBreak_of_reachable (hz : z.Reachable o) :
    z.TellsLineBreak (z.peekWithinLine o) ∧
      (z.flags.newlines = true → z.TellsLineBreak (z.peek o)) := by
  obtain ⟨m, hm, hrep⟩ := hz.exists_tape
  have hfollows := (Tape.invariant_follows source).of_reachable hm
  refine ⟨?_, hrep.tellsLineBreak hfollows⟩
  have hset : (z.setNewlines true).TellsLineBreak ((z.setNewlines true).peek o) :=
    (represents_setNewlines true hrep).tellsLineBreak hfollows rfl
  refine ⟨hset.kind_eq, hset.token_eq, hset.line_eq, hset.isDone_eq, ?_⟩
  exact congrArg (fun flags : Flags => { flags with newlines := z.flags.newlines }) hset.flags_eq

/-- Two names, and between them a comment with a line feed in it. -/
def brokenComment : Source := ⟨"a /*\n*/ b", by decide +kernel⟩

/-- The feed that has taken the first name. -/
def beforeBrokenComment : Feed brokenComment :=
  (Feed.start brokenComment Source.anonymousName ⟨true, true⟩).after .silent [.take]

/-- The second name waits, which is no line break, but it reads as one: there is a line feed before
it. -/
theorem tellsLineBreak_of_reachable_beforeBrokenComment :
    beforeBrokenComment.Reachable .silent ∧ beforeBrokenComment.flags.newlines = true ∧
      beforeBrokenComment.TellsLineBreak (beforeBrokenComment.peekWithinLine .silent) ∧
      ∃ e rest, (beforeBrokenComment.peek .silent).2.ring.pending = e :: rest ∧
        e.token.kind = .identifier ∧
        CodeUnit.lineFeed ∈ brokenComment.text.slice beforeBrokenComment.stop e.token.start := by
  have hreachable : beforeBrokenComment.Reachable .silent := .after _ (.start _ _)
  have hnewlines : beforeBrokenComment.flags.newlines = true := by decide +kernel
  have hkind : (beforeBrokenComment.peek .silent).1.toOption = some .newline := by decide +kernel
  have hwaits : ∀ e ∈ (beforeBrokenComment.peek .silent).2.ring.pending,
      e.token.kind = .identifier := by decide +kernel
  obtain ⟨hwithin, hpeek⟩ := tellsLineBreak_of_reachable hreachable
  have hok : (beforeBrokenComment.peek .silent).1 = .ok .newline := by
    cases houtcome : (beforeBrokenComment.peek .silent).1 with
    | error failure =>
      rw [houtcome] at hkind
      cases hkind
    | ok k =>
      rw [houtcome] at hkind
      exact congrArg Except.ok (Option.some.inj hkind)
  obtain ⟨e, rest, hpending, hnewline, _⟩ := (hpeek hnewlines).kind_eq .newline hok
  have he : e.token.kind = .identifier := hwaits e (hpending ▸ List.mem_cons_self)
  refine ⟨hreachable, hnewlines, hwithin, e, rest, hpending, he, ?_⟩
  refine (hnewline.mp rfl).resolve_left ?_
  rw [he]
  exact TokenKind.noConfusion

end Feed

end ScriptScanner
