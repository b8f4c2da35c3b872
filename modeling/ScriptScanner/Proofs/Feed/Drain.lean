import ScriptScanner.Proofs.Feed.LookAhead
import ScriptScanner.Tokenization
set_option autoImplicit false

/-!
# Draining a feed

A parser that takes one token after another until the end of the source, and tells the feed before
each one whether an operand may stand there, gets the tokens of a run over the whole source.  It may
look at the next token before it takes it, and put the latest token back and take it again, as often
as it likes: a token is scanned when it is looked at first, or taken if it never is, and the operand
rule has been asked by then.  Where the run over the whole source fails, the parser fails in the
same way with the same tokens in hand.
-/

namespace ScriptScanner

/-! ## Rounds -/

/-- What a parser may do before it takes the next token. -/
inductive Detour where
  /-- Looks at the next token. -/
  | look
  /-- Puts the latest token back and takes it again. -/
  | turn
  deriving DecidableEq, Repr, Inhabited

/-- The requests that a detour makes. -/
def Detour.requests : Detour → List Request
  | look => [.peek]
  | turn => [.putBack, .take]

/-- The requests for one token. -/
def roundRequests (operand : Bool) (detours : List Detour) : List Request :=
  .setOperand operand :: (detours.flatMap Detour.requests ++ [.take])

namespace Feed

variable {source : Source}

/-- Makes requests up to the first that fails. -/
def perform (o : Observer) (z : Feed source) : List Request → Outcome source Unit
  | [] => (.ok (), z)
  | r :: rest =>
      match z.respond o r with
      | (.error failure, z') => (.error failure, z')
      | (.ok _, z') => z'.perform o rest

/-- Takes tokens until the end of the source, from a feed on after a number of rounds and a last
token that is no line break; collects them, and the failure if a request fails. -/
inductive Drains (o : Observer) (rule : OperandRule) (detours : Nat → List Detour) :
    (rounds : Nat) → (previous : Option Token) → Feed source → List Token → Option Failure → Prop
  | done {rounds : Nat} {previous : Option Token} {z : Feed source} (isDone : z.isDone = true) :
      Drains o rule detours rounds previous z [] none
  | failed {rounds : Nat} {previous : Option Token} {z z' : Feed source} {failure : Failure}
      (notDone : z.isDone = false)
      (fails : z.perform o (roundRequests (rule rounds previous) (detours rounds)) =
        (.error failure, z')) :
      Drains o rule detours rounds previous z [] (some failure)
  | token {rounds : Nat} {previous : Option Token} {z z' : Feed source} {t : Token}
      {tokens : List Token} {failure : Option Failure} (notDone : z.isDone = false)
      (succeeds : z.perform o (roundRequests (rule rounds previous) (detours rounds)) =
        (.ok (), z'))
      (taken : z'.token = some t)
      (rest : Drains o rule detours (rounds + 1) (Tokenization.significant previous t) z' tokens
        failure) :
      Drains o rule detours rounds previous z (t :: tokens) failure

end Feed

/-! ## Rounds on tapes -/

namespace Tape

variable {source : Source} {o : Observer} {m : Tape source} {room : Option Nat}

/-- Makes requests up to the first that fails. -/
def perform (room : Option Nat) (o : Observer) (m : Tape source) :
    List Request → Outcome source Unit
  | [] => (.ok (), m)
  | r :: rest =>
      match m.respond room o r with
      | (.error failure, m') => (.error failure, m')
      | (.ok _, m') => m'.perform room o rest

/-- Nothing waits, or the token of the next scan does. -/
inductive Looked (o : Observer) (m : Tape source) : Tape source → Prop
  | notYet : Looked o m m
  | waits {t : Token} {c : Cursor source} {j : Journal}
      (scanned : o.scan m.filename m.cursor m.flags m.journal = (.ok t, c, j)) :
      Looked o m (m.look t c j)

/-- The latest entry may be put back and taken again. -/
def Turns (m : Tape source) : Prop :=
  ∃ e rest, m.consumed = e :: rest ∧ (e.isNewline = false ∨ m.flags.newlines = true)

/-- A putting back and a taking change nothing. -/
theorem perform_turn {x : Tape source} (hx : x.Turns) (hroom : x.pending.length < Ring.maxPending)
    (requests : List Request) :
    x.perform room o (Request.putBack :: Request.take :: requests) = x.perform room o requests := by
  obtain ⟨e, rest, hconsumed, hplain⟩ := hx
  have hpass : (!e.isNewline || x.flags.newlines) = true := by
    rcases hplain with h | h
    · rw [h]
      rfl
    · rw [h, Bool.or_true]
  have hback : x.putBack o = (.ok (), { x with consumed := rest, pending := e :: x.pending }) := by
    rw [putBack, if_neg (Nat.ne_of_lt hroom), hconsumed]
  have htake : ({ x with consumed := rest, pending := e :: x.pending } : Tape source).take o =
      (.ok e.token.kind, x) := by
    rw [take, takeFrom]
    simp only
    rw [if_pos hpass, move]
    simp only [← hconsumed]
  simp only [perform, respond, hback, htake, Answer.wrap, Except.map]

namespace Looked

variable {x : Tape source} (hp : m.pending = [])

include hp

/-- A taking does what the scan does, whether or not the token was looked at. -/
theorem take_eq (hx : Looked o m x) : x.take o = m.scan o := by
  cases hx with
  | notYet => exact take_of_pending_eq_nil o hp
  | waits scanned => rw [take_look (plain_of_scan scanned), scan_of_ok scanned, took, ← hp]

/-- A look fails as the scan does, or there is something to look at. -/
theorem peek_cases (room : Option Nat) (hx : Looked o m x) :
    (∃ failure m', m.scan o = (.error failure, m') ∧ x.peek room o = (.error failure, m')) ∨
      ∃ k x', x.peek room o = (.ok k, x') ∧ Looked o m x' := by
  cases hx with
  | notYet =>
    have hnone : ∀ e ∈ m.pending, e.isNewline = false ∨ m.flags.newlines = true :=
      hp ▸ List.forall_mem_nil _
    rcases hscan : o.scan m.filename m.cursor m.flags m.journal with ⟨failure | t, c, j⟩
    · have hensure := ensurePending_of_error hp hscan
      exact .inl ⟨_, _, scan_of_error hscan, peek_of_ensurePending_error hnone hensure⟩
    · obtain ⟨k, hpeek⟩ := exists_peek_of_ensurePending hnone (ensurePending_of_ok hp hscan)
      exact .inr ⟨k, _, hpeek, .waits hscan⟩
  | @waits t c j scanned =>
    have hkind := plain_of_scan scanned
    have hplain : ∀ e ∈ (m.look t c j).pending,
        e.isNewline = false ∨ (m.look t c j).flags.newlines = true := by
      intro e he
      obtain rfl := List.mem_singleton.mp he
      rw [Entry.isNewline, decide_eq_false_iff_not]
      exact hkind
    obtain ⟨k, hpeek⟩ := exists_peek_of_ensurePending hplain
      (ensurePending_of_waiting o (List.cons_ne_nil _ _))
    exact .inr ⟨k, _, hpeek, .waits scanned⟩

theorem pending_length_lt (hx : Looked o m x) : x.pending.length < Ring.maxPending := by
  cases hx with
  | notYet =>
    rw [hp]
    decide
  | waits scanned => exact (by decide : 1 < Ring.maxPending)

omit hp in
theorem turns (hx : Looked o m x) (hm : m.Turns) : x.Turns := by
  cases hx with
  | notYet => exact hm
  | waits scanned => exact hm

/-- Whatever the detours are, the requests do what one scan does. -/
theorem perform_eq {detours : List Detour} (hx : Looked o m x)
    (hturns : Detour.turn ∈ detours → m.Turns) :
    x.perform room o (detours.flatMap Detour.requests ++ [.take]) =
      ((m.scan o).1.map fun _ => (), (m.scan o).2) := by
  induction detours generalizing x with
  | nil =>
    simp only [List.flatMap_nil, List.nil_append, perform, respond, hx.take_eq hp, Answer.wrap]
    rcases m.scan o with ⟨failure | k, m'⟩
    · rfl
    · rfl
  | cons d detours ih =>
    have hrest : Detour.turn ∈ detours → m.Turns := fun hmem =>
      hturns (List.mem_cons_of_mem _ hmem)
    cases d with
    | look =>
      obtain ⟨failure, m', hscan, hpeek⟩ | ⟨k, x', hpeek, hx'⟩ := hx.peek_cases hp room
      · rw [hscan]
        simp only [List.flatMap_cons, Detour.requests, List.cons_append, List.nil_append, perform,
          respond, hpeek, Answer.wrap, Except.map]
      · rw [← ih hx' hrest]
        simp only [List.flatMap_cons, Detour.requests, List.cons_append, List.nil_append, perform,
          respond, hpeek, Answer.wrap, Except.map]
    | turn =>
      have hx' := hx.turns (hturns List.mem_cons_self)
      rw [← ih hx hrest, List.flatMap_cons, Detour.requests, List.append_assoc]
      exact perform_turn hx' (hx.pending_length_lt hp) _

end Looked

/-- A round does what one scan does with the flag that it sets. -/
theorem perform_round {detours : List Detour} {operand : Bool} (hp : m.pending = [])
    (hturns : Detour.turn ∈ detours → m.Turns) :
    m.perform room o (roundRequests operand detours) =
      (((m.setOperand operand).scan o).1.map fun _ => (), ((m.setOperand operand).scan o).2) := by
  have hpending : (m.setOperand operand).pending = [] := hp
  have hfirst : Looked o (m.setOperand operand) (m.setOperand operand) := .notYet
  exact hfirst.perform_eq hpending hturns

/-- The tape stands where a run over the whole source stands between two scans. -/
structure AtHead (s : Settings) (p : Tokenization.Progress source) (m : Tape source) : Prop where
  filename : m.filename = s.filename
  newlines : m.flags.newlines = s.newlines
  cursor : m.cursor = p.cursor
  journal : m.journal = p.journal
  pending : m.pending = []
  notDone : m.isDone = false
  turns : 0 < p.calls → m.Turns

theorem atHead_start (source : Source) (s : Settings) (operand : Bool) :
    AtHead s { cursor := Cursor.start source }
      (Tape.start source s.filename ⟨s.newlines, operand⟩) :=
  ⟨rfl, rfl, rfl, rfl, rfl, rfl, fun hcalls => absurd hcalls (Nat.lt_irrefl 0)⟩

namespace AtHead

variable {s : Settings} {p : Tokenization.Progress source} {operand : Bool}
  {outcome : Except Failure Token} {c : Cursor source} {j : Journal}

/-- The next scan of the tape is the next scan of the run. -/
theorem scan_eq (h : AtHead s p m)
    (hscan : s.observer.scan s.filename p.cursor ⟨s.newlines, operand⟩ p.journal =
      (outcome, c, j)) :
    s.observer.scan (m.setOperand operand).filename (m.setOperand operand).cursor
      (m.setOperand operand).flags (m.setOperand operand).journal = (outcome, c, j) := by
  simp only [setOperand, h.filename, h.cursor, h.newlines, h.journal]
  exact hscan

variable {detours : Nat → List Detour} (hdetours : Detour.turn ∉ detours 0)

include hdetours

theorem perform_eq (h : AtHead s p m) :
    m.perform room o (roundRequests operand (detours p.calls)) =
      (((m.setOperand operand).scan o).1.map fun _ => (), ((m.setOperand operand).scan o).2) := by
  refine perform_round h.pending fun hturn => h.turns (Nat.pos_of_ne_zero fun hzero => ?_)
  rw [hzero] at hturn
  exact hdetours hturn

/-- Where the run fails, the round fails in the same way. -/
theorem exists_perform_of_error (h : AtHead s p m) {failure : Failure}
    (hscan : s.observer.scan s.filename p.cursor ⟨s.newlines, operand⟩ p.journal =
      (.error failure, c, j)) :
    ∃ m', m.perform room s.observer (roundRequests operand (detours p.calls)) =
      (.error failure, m') := by
  rw [h.perform_eq hdetours, scan_of_error (h.scan_eq hscan)]
  exact ⟨_, rfl⟩

/-- Where the run gets a token, the round takes it, and the tape is where the run is. -/
theorem exists_perform_of_ok (h : AtHead s p m) {t : Token}
    (hscan : s.observer.scan s.filename p.cursor ⟨s.newlines, operand⟩ p.journal =
      (.ok t, c, j)) :
    ∃ m', m.perform room s.observer (roundRequests operand (detours p.calls)) = (.ok (), m') ∧
      m'.token = some t ∧ (m'.isDone = true ↔ t.kind = .endOfSource) ∧
      (t.kind ≠ .endOfSource → ∀ p' : Tokenization.Progress source, p'.cursor = c →
        p'.journal = j → AtHead s p' m') := by
  have hplain := plain_of_scan (h.scan_eq hscan)
  rw [h.perform_eq hdetours, scan_of_ok (h.scan_eq hscan)]
  refine ⟨_, rfl, rfl, decide_eq_true_iff, fun hend p' hc hj => ?_⟩
  refine ⟨h.filename, h.newlines, hc.symm, hj.symm, h.pending, decide_eq_false hend, fun _ => ?_⟩
  refine ⟨_, _, rfl, hplain.imp_left fun hkind => ?_⟩
  exact decide_eq_false hkind

end AtHead

end Tape

namespace Feed

variable {source : Source} {z : Feed source} {m : Tape source}

theorem agrees_perform (o : Observer) (requests : List Request) (h : z.Represents m) :
    Agrees (z.perform o requests) (m.perform Tape.ringRoom o requests) := by
  induction requests generalizing z m with
  | nil => exact .intro _ _ _ h
  | cons r rest ih =>
    have hstep := agrees_respond o r h
    rw [perform, Tape.perform]
    generalize z.respond o r = x at hstep ⊢
    generalize m.respond Tape.ringRoom o r = y at hstep ⊢
    obtain ⟨outcome, z', m', hrep⟩ := hstep
    cases outcome with
    | error failure => exact .intro _ _ _ hrep
    | ok answer => exact ih hrep

section Round

variable {s : Settings} {p : Tokenization.Progress source} {c : Cursor source} {j : Journal}
  {operand : Bool} {detours : Nat → List Detour} (hdetours : Detour.turn ∉ detours 0)

include hdetours

theorem exists_perform_of_error (hz : z.Represents m) (hm : m.AtHead s p) {failure : Failure}
    (hscan : s.observer.scan s.filename p.cursor ⟨s.newlines, operand⟩ p.journal =
      (.error failure, c, j)) :
    ∃ z', z.perform s.observer (roundRequests operand (detours p.calls)) =
      (.error failure, z') := by
  obtain ⟨m', hperform⟩ := hm.exists_perform_of_error hdetours hscan
  have hround := agrees_perform s.observer (roundRequests operand (detours p.calls)) hz
  rw [hperform] at hround
  exact ⟨_, Prod.ext hround.outcome_eq rfl⟩

theorem exists_perform_of_ok (hz : z.Represents m) (hm : m.AtHead s p) {t : Token}
    (hscan : s.observer.scan s.filename p.cursor ⟨s.newlines, operand⟩ p.journal =
      (.ok t, c, j)) :
    ∃ z' m', z.perform s.observer (roundRequests operand (detours p.calls)) = (.ok (), z') ∧
      z'.Represents m' ∧ z'.token = some t ∧ (z'.isDone = true ↔ t.kind = .endOfSource) ∧
      (t.kind ≠ .endOfSource → ∀ p' : Tokenization.Progress source, p'.cursor = c →
        p'.journal = j → m'.AtHead s p') := by
  obtain ⟨m', hperform, htoken, hdone, hhead⟩ := hm.exists_perform_of_ok hdetours hscan
  have hround := agrees_perform s.observer (roundRequests operand (detours p.calls)) hz
  rw [hperform] at hround
  have hrep := hround.represents
  refine ⟨_, m', Prod.ext hround.outcome_eq rfl, hrep, ?_, ?_, hhead⟩
  · rw [hrep.token_eq, htoken]
  · rw [hrep.isDone_eq, hdone]

end Round

/-- What a run still adds is drained from a feed that stands where the run stands. -/
theorem exists_drains_of_run {s : Settings} {detours : Nat → List Detour}
    (hdetours : Detour.turn ∉ detours 0) (p : Tokenization.Progress source) :
    ∀ (z : Feed source) (m : Tape source), z.Represents m → m.AtHead s p →
      ∃ rest, (p.run s).tokens = p.tokens.reverse ++ rest ∧
        Drains s.observer s.rule detours p.calls p.previous z rest (p.run s).failure := by
  fun_induction Tokenization.Progress.run s p with
  | case1 p flags asked failure cursor journal hscan =>
    intro z m hz hm
    obtain ⟨z', hperform⟩ := exists_perform_of_error hdetours hz hm hscan
    have hgoing : z.isDone = false := hz.isDone_eq.trans hm.notDone
    exact ⟨[], (List.append_nil _).symm, .failed hgoing hperform⟩
  | case2 p flags asked t cursor journal hscan after hend =>
    intro z m hz hm
    obtain ⟨z', m', hperform, _, htoken, hdone, _⟩ := exists_perform_of_ok hdetours hz hm hscan
    have hgoing : z.isDone = false := hz.isDone_eq.trans hm.notDone
    exact ⟨[t], List.reverse_cons, .token hgoing hperform htoken (.done (hdone.mpr hend))⟩
  | case3 p flags asked t cursor journal hscan after hend ih =>
    intro z m hz hm
    obtain ⟨z', m', hperform, hrep, htoken, _, hhead⟩ :=
      exists_perform_of_ok hdetours hz hm hscan
    have hgoing : z.isDone = false := hz.isDone_eq.trans hm.notDone
    obtain ⟨rest, htokens, hdrains⟩ := ih z' m' hrep (hhead hend after rfl rfl)
    refine ⟨t :: rest, ?_, .token hgoing hperform htoken hdrains⟩
    rw [htokens, List.reverse_cons, List.append_assoc, List.singleton_append]

/-- What is drained is determined by where the feed stands. -/
theorem Drains.unique {o : Observer} {rule : OperandRule} {detours : Nat → List Detour}
    {rounds : Nat} {previous : Option Token} {tokens tokens' : List Token}
    {failure failure' : Option Failure} (h : Drains o rule detours rounds previous z tokens failure)
    (h' : Drains o rule detours rounds previous z tokens' failure') :
    tokens = tokens' ∧ failure = failure' := by
  induction h generalizing tokens' failure' with
  | done isDone =>
    cases h' with
    | done => exact ⟨rfl, rfl⟩
    | failed notDone => cases isDone.symm.trans notDone
    | token notDone => cases isDone.symm.trans notDone
  | failed notDone fails =>
    cases h' with
    | done isDone => cases isDone.symm.trans notDone
    | failed _ fails' => cases fails.symm.trans fails'; exact ⟨rfl, rfl⟩
    | token _ succeeds' => cases fails.symm.trans succeeds'
  | token notDone succeeds taken _ ih =>
    cases h' with
    | done isDone => cases isDone.symm.trans notDone
    | failed _ fails' => cases succeeds.symm.trans fails'
    | token _ succeeds' taken' rest' =>
      cases succeeds.symm.trans succeeds'
      cases taken.symm.trans taken'
      obtain ⟨rfl, rfl⟩ := ih rest'
      exact ⟨rfl, rfl⟩

end Feed

/-- A parser that drains a feed, with any looks ahead on the way, and with any tokens put back and
taken again once there is one, collects the tokens of the run over the whole source, and fails if
and as that run fails. -/
theorem drains_start_iff (source : Source) (s : Settings) (operand : Bool)
    {detours : Nat → List Detour} (hdetours : Detour.turn ∉ detours 0) (tokens : List Token)
    (failure : Option Failure) :
    Feed.Drains s.observer s.rule detours 0 none
        (Feed.start source s.filename ⟨s.newlines, operand⟩) tokens failure ↔
      tokens = (tokenize source s).tokens ∧ failure = (tokenize source s).failure := by
  obtain ⟨rest, htokens, hdrains⟩ := Feed.exists_drains_of_run hdetours
    { cursor := Cursor.start source } _ _ (Feed.represents_start s.filename _)
    (Tape.atHead_start source s operand)
  rw [List.reverse_nil, List.nil_append] at htokens
  rw [tokenize, htokens]
  refine ⟨fun h => h.unique hdrains, ?_⟩
  rintro ⟨rfl, rfl⟩
  exact hdrains

/-- A regular expression and a division on two lines, with a comment between them. -/
def slashedLines : Source := ⟨"/a/g // b\n / c", by decide +kernel⟩

/-- Looks twice before the first token, and turns and looks before the others. -/
def restless : Nat → List Detour
  | 0 => [.look, .look]
  | _ => [.turn, .look, .turn]

theorem drains_start_iff_slashedLines :
    Detour.turn ∉ restless 0 ∧ (tokenize slashedLines { newlines := true }).tokens.length = 5 ∧
      Feed.Drains .silent .default restless 0 none
        (Feed.start slashedLines Source.anonymousName ⟨true, false⟩)
        (tokenize slashedLines { newlines := true }).tokens none := by
  have hrestless : Detour.turn ∉ restless 0 := by decide
  have hnone : (tokenize slashedLines { newlines := true }).failure = none :=
    Option.isNone_iff_eq_none.mp (by decide +kernel)
  have hdrains := drains_start_iff slashedLines { newlines := true } false hrestless
  exact ⟨hrestless, by decide +kernel, (hdrains _ _).mpr ⟨rfl, hnone.symm⟩⟩

end ScriptScanner
