import ScriptScanner.Proofs.Feed.Representation
import ScriptScanner.Proofs.Observer
import ScriptScanner.Proofs.Scan
set_option autoImplicit false

/-!
# What the observer of a feed is told

A request scans at most once, and not while something waits that it can use.  What happens in a
request is therefore known without any observer: the token of that scan, if it finds one, and the
diagnostic that the request fails with, if it fails.  An observer that only listens is told just
that, in this order, and the feed answers every request as if nobody were listening: only the
journal differs.

The operations are made of steps that may fail, so what is shown here of each step carries over to
an operation as a whole when no step after the first one scans.
-/

namespace ScriptScanner

/-- The flags with which a request looks for the next token, if it looks for one. -/
def Request.looksWith? (flags : Flags) : Request → Option Flags
  | .take | .peek | .accept _ | .demand _ => some flags
  | .peekWithinLine => some { flags with newlines := true }
  | .putBack | .setNewlines _ | .setOperand _ => none

namespace Feed

variable {source : Source}

/-- A scan, if there is one: its outcome and the cursor after it. -/
abbrev Scan? (source : Source) := Option (Except LocatedFault Token × Cursor source)

/-- The scan that a look for the next token comes to, unless something waits that is not passed
over. -/
def scanFor? (z : Feed source) (flags : Flags) : Scan? source :=
  if z.ring.pending.any fun e => !e.isNewline || flags.newlines then none
  else some (z.cursor.next flags)

/-- The scan that a request comes to. -/
def freshScan? (z : Feed source) (r : Request) : Scan? source :=
  (r.looksWith? z.flags).bind z.scanFor?

/-- What happens in a request: the token that is scanned, and the diagnostic of a failure. -/
def happenings (z : Feed source) (r : Request) : List Event :=
  (z.freshScan? r).toList.flatMap (Event.found ·.1) ++ Event.failed (z.respond .silent r).1

/-- What happens in a run, request by request. -/
def chronicle (z : Feed source) : List Request → List Event
  | [] => []
  | r :: rest => z.happenings r ++ (z.respond .silent r).2.chronicle rest

/-- The feed with another journal. -/
def withJournal (z : Feed source) (j : Journal) : Feed source := { z with journal := j }

/-! ## Steps -/

variable {α β : Type} {o : Observer} {j : Journal} {y : Feed source} {fresh : Scan? source}

/-- What an observer makes of a step that begins with a journal at a cursor: the outcome and the
feed are those of the step without it, the journal has the token of the scan and the failure, and
the cursor is where the scan leaves it. -/
structure Heard (o : Observer) (j : Journal) (c : Cursor source) (fresh : Scan? source)
    (told plain : Outcome source α) : Prop where
  told_eq : told = (plain.1, plain.2.withJournal
    ((fresh.toList.flatMap (Event.found ·.1) ++ Event.failed plain.1).foldl o.hear j))
  cursor_eq : plain.2.cursor = (fresh.map Prod.snd).getD c

/-- Goes on after a step that succeeds. -/
def andThen (x : Outcome source α) (next : α → Feed source → Outcome source β) :
    Outcome source β :=
  match x with
  | (.error failure, z) => (.error failure, z)
  | (.ok a, z) => next a z

theorem heard_ok (a : α) :
    Heard o j y.cursor none (.ok a, y.withJournal j) ((.ok a, y) : Outcome source α) := ⟨rfl, rfl⟩

theorem accept_eq_andThen (o : Observer) (kindName : Text) (z : Feed source) :
    z.accept o kindName =
      andThen (z.take o) fun kind z' =>
        if kind.name = kindName then (.ok true, z')
        else andThen (z'.putBack o) fun _ z'' => (.ok false, z'') := by
  rw [accept, andThen.eq_def]
  rcases z.take o with ⟨failure | kind, z'⟩
  · rfl
  · simp only [andThen.eq_def]
    rcases z'.putBack o with ⟨failure | _, z''⟩ <;> rfl

theorem demand_eq_andThen (o : Observer) (kindName : Text) (z : Feed source) :
    z.demand o kindName =
      andThen (z.accept o kindName) fun accepted z' =>
        match accepted with
        | false => z'.fail o (.missingToken kindName)
        | true =>
            match z'.token with
            | some t => (.ok t, z')
            | none => z'.fail o .emptyPushback := by
  rw [demand, andThen.eq_def]
  rcases z.accept o kindName with ⟨failure | accepted, z'⟩
  · rfl
  · cases accepted <;> rfl

theorem ensurePending_eq_andThen (o : Observer) (z : Feed source) :
    z.ensurePending o =
      if z.ring.lookahead = 0 then andThen (z.take o) fun _ z' => z'.putBack o
      else (.ok (), z) := by
  rw [ensurePending, andThen.eq_def]
  rcases z.take o with ⟨failure | kind, z'⟩ <;> rfl

/-- The feed that a peek looks at: waiting line breaks are forgotten while none are scanned. -/
def beforePeek (z : Feed source) : Feed source :=
  if z.flags.newlines then z else z.dropPendingNewlines

theorem peek_eq_andThen (o : Observer) (z : Feed source) :
    z.peek o =
      andThen (z.beforePeek.ensurePending o) fun _ z' =>
        match z'.ring.ahead 1 with
        | none => z'.fail o .emptyPushback
        | some e =>
            if z'.flags.newlines && e.token.line ≠ z'.line then (.ok .newline, z')
            else (.ok e.token.kind, z') := by
  rw [peek, andThen.eq_def, ← beforePeek]
  rcases z.beforePeek.ensurePending o with ⟨failure | _, z'⟩ <;> rfl

/-- If the second step does not scan, the two are heard as one. -/
theorem Heard.andThen {c : Cursor source} {told plain : Outcome source α}
    {next next' : α → Feed source → Outcome source β} (h : Heard o j c fresh told plain)
    (hnext : ∀ a z, plain = (.ok a, z) → ∀ j',
      Heard o j' z.cursor none (next a (z.withJournal j')) (next' a z)) :
    Heard o j c fresh (andThen told next) (andThen plain next') := by
  obtain ⟨rfl, hcursor⟩ := h
  obtain ⟨outcome, z⟩ := plain
  cases outcome with
  | error failure => exact ⟨rfl, hcursor⟩
  | ok a =>
    obtain ⟨htold, hcursor'⟩ :=
      hnext a z rfl ((fresh.toList.flatMap (Event.found ·.1)).foldl o.hear j)
    refine ⟨?_, hcursor'.trans hcursor⟩
    show next a (z.withJournal _) = _
    rw [Event.failed, List.append_nil, htold]
    simp only [Feed.andThen, Option.toList_none, List.flatMap_nil, List.nil_append,
      List.foldl_append]

theorem heard_fail (ho : o.OnlyListens) (fault : Fault) :
    Heard (α := α) o j y.cursor none ((y.withJournal j).fail o fault) (y.fail .silent fault) := by
  refine ⟨?_, rfl⟩
  simp only [fail, ho.report_eq, Observer.OnlyListens.silent.report_eq]
  rfl

/-! ## Operations -/

theorem heard_scan (ho : o.OnlyListens) :
    Heard o j y.cursor (some (y.cursor.next y.flags)) ((y.withJournal j).scan o)
      (y.scan .silent) := by
  rcases hnext : y.cursor.next y.flags with ⟨outcome, c'⟩
  cases outcome with
  | error m =>
    have htold := ho.scan_of_error hnext y.filename j
    have hplain := Observer.OnlyListens.silent.scan_of_error hnext y.filename y.journal
    simp only [scan, withJournal, htold, hplain]
    exact ⟨rfl, rfl⟩
  | ok t =>
    have htold := ho.scan_of_ok hnext y.filename j
    have hplain := Observer.OnlyListens.silent.scan_of_ok hnext y.filename y.journal
    simp only [scan, withJournal, htold, hplain]
    exact ⟨rfl, rfl⟩

/-- Waiting entries are taken without a scan, up to the first that is not passed over. -/
theorem heard_replay (ho : o.OnlyListens) {known pending : List Entry}
    (h : y.ring.Holds known pending) :
    Heard o j y.cursor
      (if pending.any fun e => !e.isNewline || y.flags.newlines then none
        else some (y.cursor.next y.flags))
      ((y.withJournal j).replay o pending.length) (y.replay .silent pending.length) := by
  induction pending generalizing y known with
  | nil => exact heard_scan ho
  | cons e rest ih =>
    have hlatest : y.ring.forward.latest = some e := h.forward.latest_eq
    have hstep : (y.withJournal j).ring.forward.latest = some e := hlatest
    rw [List.length_cons, replay, replay, List.any_cons]
    simp only [hlatest, hstep]
    cases hserves : !e.isNewline || y.flags.newlines with
    | true =>
      have hfirst : (!e.isNewline || (y.withJournal j).flags.newlines) = true := hserves
      rw [if_pos hfirst, Bool.true_or]
      exact heard_ok (y := { y with ring := y.ring.forward }) e.token.kind
    | false =>
      have hfirst : ¬ (!e.isNewline || (y.withJournal j).flags.newlines) = true := by
        rw [Bool.not_eq_true]
        exact hserves
      rw [if_neg hfirst, if_neg Bool.false_ne_true, Bool.false_or]
      exact ih (y := { y with ring := y.ring.forward }) h.forward

theorem scanFor?_eq {known pending : List Entry} (h : y.ring.Holds known pending) (flags : Flags) :
    y.scanFor? flags =
      if pending.any fun e => !e.isNewline || flags.newlines then none
      else some (y.cursor.next flags) := by
  rw [scanFor?, h.pending_eq]

theorem heard_take (ho : o.OnlyListens) {known pending : List Entry}
    (h : y.ring.Holds known pending) :
    Heard o j y.cursor (y.scanFor? y.flags) ((y.withJournal j).take o) (y.take .silent) := by
  have htake : (y.withJournal j).take o = (y.withJournal j).replay o pending.length := by
    rw [take, ← h.lookahead_eq]
    rfl
  rw [htake, take, h.lookahead_eq, scanFor?_eq h]
  exact heard_replay ho h

theorem heard_putBack (ho : o.OnlyListens) :
    Heard o j y.cursor none ((y.withJournal j).putBack o) (y.putBack .silent) := by
  have hring : (y.withJournal j).ring = y.ring := rfl
  rw [putBack, putBack, hring]
  split
  · exact heard_fail ho _
  · split
    · exact heard_fail ho _
    · exact heard_ok (y := { y with ring := y.ring.back }) ()

theorem heard_accept (ho : o.OnlyListens) (kindName : Text) {known pending : List Entry}
    (h : y.ring.Holds known pending) :
    Heard o j y.cursor (y.scanFor? y.flags) ((y.withJournal j).accept o kindName)
      (y.accept .silent kindName) := by
  rw [accept_eq_andThen, accept_eq_andThen]
  refine (heard_take ho h).andThen fun kind z _ j' => ?_
  split
  · exact heard_ok true
  · exact (heard_putBack ho).andThen fun _ z' _ j'' => heard_ok false

theorem heard_demand (ho : o.OnlyListens) (kindName : Text) {known pending : List Entry}
    (h : y.ring.Holds known pending) :
    Heard o j y.cursor (y.scanFor? y.flags) ((y.withJournal j).demand o kindName)
      (y.demand .silent kindName) := by
  rw [demand_eq_andThen, demand_eq_andThen]
  refine (heard_accept ho kindName h).andThen fun accepted z _ j' => ?_
  cases accepted with
  | false => exact heard_fail ho _
  | true =>
    have htoken : (z.withJournal j').token = z.token := rfl
    simp only [htoken]
    cases z.token with
    | none => exact heard_fail ho _
    | some t => exact heard_ok t

/-- Where nothing that waits is passed over, a token is scanned only if nothing waits. -/
theorem heard_ensurePending (ho : o.OnlyListens) {known pending : List Entry}
    (h : y.ring.Holds known pending)
    (hserves : ∀ e ∈ pending, (!e.isNewline || y.flags.newlines) = true) :
    Heard o j y.cursor (y.scanFor? y.flags) ((y.withJournal j).ensurePending o)
      (y.ensurePending .silent) := by
  have hlength : (y.withJournal j).ring.lookahead = y.ring.lookahead := rfl
  rw [ensurePending_eq_andThen, ensurePending_eq_andThen, hlength]
  split
  · exact (heard_take ho h).andThen fun _ z _ j' => heard_putBack ho
  · next hne =>
    have hany : (pending.any fun e => !e.isNewline || y.flags.newlines) = true := by
      cases pending with
      | nil => exact absurd h.lookahead_eq hne
      | cons e rest => rw [List.any_cons, hserves e List.mem_cons_self, Bool.true_or]
    rw [scanFor?_eq h, if_pos hany]
    exact heard_ok ()

/-- Before a peek nothing waits that is passed over, and the peek scans if the feed as it was would
have had to. -/
theorem exists_holds_beforePeek {known pending : List Entry} (h : y.ring.Holds known pending) :
    ∃ known' pending', y.beforePeek.ring.Holds known' pending' ∧
      (∀ e ∈ pending', (!e.isNewline || y.flags.newlines) = true) ∧
      y.beforePeek.scanFor? y.flags = y.scanFor? y.flags := by
  rw [beforePeek]
  split
  · next hmode => exact ⟨known, pending, h, fun e _ => by rw [hmode, Bool.or_true], rfl⟩
  · next hmode =>
    have hkept : y.dropPendingNewlines.ring.Holds _ (pending.filter fun e => !e.isNewline) :=
      h.keepPending fun e => !e.isNewline
    have hany : ((pending.filter fun e => !e.isNewline).any fun e =>
        !e.isNewline || y.flags.newlines) =
          pending.any fun e => !e.isNewline || y.flags.newlines := by
      rw [List.any_filter, Bool.eq_false_iff.mpr hmode]
      congr 1
      funext e
      rw [Bool.or_false, Bool.and_self]
    refine ⟨_, _, hkept, fun e he => ?_, ?_⟩
    · rw [(List.mem_filter.mp he).2, Bool.true_or]
    · rw [scanFor?_eq hkept, scanFor?_eq h, hany]
      rfl

theorem heard_peek (ho : o.OnlyListens) {known pending : List Entry}
    (h : y.ring.Holds known pending) :
    Heard o j y.cursor (y.scanFor? y.flags) ((y.withJournal j).peek o) (y.peek .silent) := by
  obtain ⟨known', pending', hring, hserves, hscan⟩ := exists_holds_beforePeek h
  have hcursor : y.beforePeek.cursor = y.cursor := by
    rw [beforePeek]
    split <;> rfl
  have hflags : y.beforePeek.flags = y.flags := by
    rw [beforePeek]
    split <;> rfl
  have hjournal : (y.withJournal j).beforePeek = y.beforePeek.withJournal j := by
    rw [beforePeek, beforePeek, apply_ite (withJournal · j)]
    rfl
  have hensure := heard_ensurePending (j := j) ho hring (hflags ▸ hserves)
  rw [hflags, hcursor, hscan] at hensure
  rw [peek_eq_andThen, peek_eq_andThen, hjournal]
  refine hensure.andThen fun _ z _ j' => ?_
  have hahead : (z.withJournal j').ring.ahead 1 = z.ring.ahead 1 := rfl
  simp only [hahead]
  cases z.ring.ahead 1 with
  | none => exact heard_fail ho _
  | some e =>
    have htest : ((z.withJournal j').flags.newlines && e.token.line ≠ (z.withJournal j').line) =
        (z.flags.newlines && e.token.line ≠ z.line) := rfl
    simp only [htest]
    split
    · exact heard_ok _
    · exact heard_ok _

theorem heard_peekWithinLine (ho : o.OnlyListens) {known pending : List Entry}
    (h : y.ring.Holds known pending) :
    Heard o j y.cursor (y.scanFor? { y.flags with newlines := true })
      ((y.withJournal j).peekWithinLine o) (y.peekWithinLine .silent) := by
  obtain ⟨htold, hcursor⟩ := heard_peek (y := y.setNewlines true) (j := j) ho h
  have hpeek : ((y.withJournal j).setNewlines true).peek o = _ := htold
  rw [peekWithinLine, peekWithinLine, hpeek]
  exact ⟨rfl, hcursor⟩

/-! ## Requests and runs -/

theorem Heard.wrap {c : Cursor source} {told plain : Outcome source α} (f : α → Answer)
    (h : Heard o j c fresh told plain) :
    Heard o j c fresh (Answer.wrap f told) (Answer.wrap f plain) := by
  obtain ⟨rfl, hcursor⟩ := h
  refine ⟨?_, hcursor⟩
  obtain ⟨failure | a, z⟩ := plain
  · rfl
  · rfl

theorem heard_respond (ho : o.OnlyListens) (r : Request) {known pending : List Entry}
    (h : y.ring.Holds known pending) :
    Heard o j y.cursor (y.freshScan? r) ((y.withJournal j).respond o r)
      (y.respond .silent r) := by
  cases r with
  | take => exact (heard_take ho h).wrap _
  | putBack => exact (heard_putBack ho).wrap _
  | peek => exact (heard_peek ho h).wrap _
  | peekWithinLine => exact (heard_peekWithinLine ho h).wrap _
  | accept kindName => exact (heard_accept ho kindName h).wrap _
  | demand kindName => exact (heard_demand ho kindName h).wrap _
  | setNewlines newlines => exact heard_ok (y := y.setNewlines newlines) _
  | setOperand operand => exact heard_ok (y := y.setOperand operand) _

/-- A run is answered as if nobody were listening, and the observer is told what happens in it. -/
theorem run_eq_of_reachable (ho : o.OnlyListens) (hy : y.Reachable .silent) (j : Journal)
    (requests : List Request) :
    (y.withJournal j).trace o requests = y.trace .silent requests ∧
      (y.withJournal j).after o requests =
        (y.after .silent requests).withJournal ((y.chronicle requests).foldl o.hear j) := by
  induction requests generalizing y j with
  | nil => exact ⟨rfl, rfl⟩
  | cons r rest ih =>
    obtain ⟨m, -, hrep⟩ := hy.exists_tape
    have htold := (heard_respond (j := j) ho r hrep.ring).told_eq
    obtain ⟨htrace, hafter⟩ := ih (.respond r hy) ((y.happenings r).foldl o.hear j)
    have hfeed : ((y.withJournal j).respond o r).2 =
        (y.respond .silent r).2.withJournal ((y.happenings r).foldl o.hear j) := by
      rw [htold]
      rfl
    have houtcome : ((y.withJournal j).respond o r).1 = (y.respond .silent r).1 := by
      rw [htold]
    constructor
    · show (((y.withJournal j).respond o r).1, ((y.withJournal j).respond o r).2.view) ::
          ((y.withJournal j).respond o r).2.trace o rest = _
      rw [houtcome, hfeed, htrace]
      rfl
    · show ((y.withJournal j).respond o r).2.after o rest = _
      rw [hfeed, hafter, chronicle, List.foldl_append]
      rfl

end Feed

/-! ## The order of the tokens -/

namespace Event

/-- The token that an event tells of. -/
def token? : Event → Option Token
  | .token t => some t
  | .error _ => none

variable {α : Type} (outcome : Except Failure α)

theorem filterMap_token?_failed : (failed outcome).filterMap token? = [] := by
  rcases outcome with (d | m) | a <;> rfl

theorem filter_failed :
    (failed outcome).filter (fun e => e.token?.isNone) = failed outcome := by
  rcases outcome with (d | m) | a <;> rfl

end Event

/-- The tokens cover ranges one after the other, and none before the offset. -/
structure Token.InOrder (offset : Nat) (tokens : List Token) : Prop where
  bounds : ∀ t ∈ tokens, (offset : Int) ≤ t.start ∧ t.start ≤ t.stop
  apart : tokens.Pairwise fun t t' => t.stop ≤ t'.start

namespace Token.InOrder

theorem nil (offset : Nat) : InOrder offset [] :=
  ⟨fun _ ht => absurd ht List.not_mem_nil, List.Pairwise.nil⟩

theorem mono {m n : Nat} {tokens : List Token} (hle : n ≤ m) (h : InOrder m tokens) :
    InOrder n tokens := by
  refine ⟨fun t ht => ?_, h.apart⟩
  obtain ⟨hstart, hstop⟩ := h.bounds t ht
  exact ⟨by omega, hstop⟩

/-- The token of a scan comes before those that lie behind the cursor after it. -/
theorem of_next {source : Source} {c c' : Cursor source} {flags : Flags} {t : Token}
    {tokens : List Token} (hc : c.InPlace) (hnext : c.next flags = (.ok t, c'))
    (h : InOrder c'.offset tokens) : InOrder c.offset (t :: tokens) := by
  obtain ⟨start, hle, hcovers, -⟩ := hc.exists_covers_of_next_eq_ok hnext
  have hstart : t.start = start := hcovers.start_eq
  have hstop : t.stop = c'.offset := hcovers.stop_eq
  have hrange := hcovers.start_le
  refine ⟨fun t' ht' => ?_, List.pairwise_cons.mpr ⟨fun t' ht' => ?_, h.apart⟩⟩
  · rcases List.mem_cons.mp ht' with rfl | ht'
    · omega
    · obtain ⟨hfirst, hlast⟩ := h.bounds t' ht'
      exact ⟨by omega, hlast⟩
  · have hfirst := (h.bounds t' ht').1
    omega

end Token.InOrder

namespace Feed

variable {source : Source} {y : Feed source}

theorem next_eq_of_freshScan? {r : Request} {result : Except LocatedFault Token × Cursor source}
    (h : y.freshScan? r = some result) : ∃ flags, y.cursor.next flags = result := by
  obtain ⟨flags, -, hscan⟩ := Option.bind_eq_some_iff.mp h
  rw [scanFor?] at hscan
  split at hscan
  · cases hscan
  · exact ⟨flags, Option.some.inj hscan⟩

/-- The tokens that are scanned in a run come in order. -/
theorem inOrder_chronicle (hy : y.Reachable .silent) (hc : y.cursor.InPlace)
    (requests : List Request) :
    Token.InOrder y.cursor.offset ((y.chronicle requests).filterMap Event.token?) := by
  induction requests generalizing y with
  | nil => exact .nil _
  | cons r rest ih =>
    obtain ⟨m, -, hrep⟩ := hy.exists_tape
    have hcursor := (heard_respond (j := {}) .silent r hrep.ring).cursor_eq
    have hrest := ih (.respond r hy)
    rw [chronicle, happenings, List.filterMap_append, List.filterMap_append,
      Event.filterMap_token?_failed, List.append_nil]
    rw [hcursor] at hrest
    cases hfresh : y.freshScan? r with
    | none =>
      rw [hfresh] at hrest
      exact hrest hc
    | some result =>
      obtain ⟨flags, hscan⟩ := next_eq_of_freshScan? hfresh
      rw [hfresh] at hrest
      obtain ⟨outcome, c'⟩ := result
      obtain ⟨hplace, hle⟩ := hc.of_next_eq hscan
      cases outcome with
      | error m => exact (hrest hplace).mono hle
      | ok t => exact .of_next hc hscan (hrest hplace)

/-- Beside the tokens, what happens in a run are the failures of its trace. -/
theorem filter_chronicle (requests : List Request) :
    (y.chronicle requests).filter (fun e => e.token?.isNone) =
      (y.trace .silent requests).flatMap (Event.failed ·.1) := by
  induction requests generalizing y with
  | nil => rfl
  | cons r rest ih =>
    have hfound : ((y.freshScan? r).toList.flatMap (Event.found ·.1)).filter
        (fun e => e.token?.isNone) = [] := by
      rcases y.freshScan? r with _ | ⟨m | t, c'⟩ <;> rfl
    rw [chronicle, happenings, List.filter_append, List.filter_append, hfound,
      Event.filter_failed, ih]
    rfl

/-- An observer of a run changes nothing but the journal, and what it hears of is told to it once
and in order: the token of every scan that finds one, and the failure of every request that fails.
The cursor moves by these scans only. -/
structure ToldOnce (o : Observer) (z : Feed source) (requests : List Request) : Prop where
  trace_eq : z.trace o requests = z.trace .silent requests
  after_eq : z.after o requests =
    (z.after .silent requests).withJournal (z.after o requests).journal
  events_eq : (z.after o requests).journal.events =
    ((z.chronicle requests).filter o.hears).reverse ++ z.journal.events
  failures_eq : (z.chronicle requests).filter (fun e => e.token?.isNone) =
    (z.trace o requests).flatMap (Event.failed ·.1)
  inOrder : Token.InOrder z.cursor.offset ((z.chronicle requests).filterMap Event.token?)
  cursor_eq : ∀ r, ((z.after .silent requests).respond .silent r).2.cursor =
    (((z.after .silent requests).freshScan? r).map Prod.snd).getD
      (z.after .silent requests).cursor

theorem toldOnce_start {o : Observer} (ho : o.OnlyListens) (filename : Text) (flags : Flags)
    (requests : List Request) : ToldOnce o (Feed.start source filename flags) requests := by
  have hstart : (Feed.start source filename flags).Reachable .silent := .start filename flags
  obtain ⟨htrace, hafter⟩ := run_eq_of_reachable ho hstart {} requests
  have hjournal : (Feed.start source filename flags).withJournal {} =
      Feed.start source filename flags := rfl
  rw [hjournal] at htrace hafter
  refine ⟨htrace, ?_, ?_, ?_, ?_, fun r => ?_⟩
  · rw [hafter]
    rfl
  · rw [hafter]
    exact o.events_foldl_hear _ _
  · rw [htrace]
    exact filter_chronicle requests
  · exact inOrder_chronicle hstart (Cursor.inPlace_start source) requests
  · obtain ⟨m, -, hrep⟩ := (hstart.after requests).exists_tape
    exact (heard_respond (j := {}) .silent r hrep.ring).cursor_eq

end Feed

end ScriptScanner
