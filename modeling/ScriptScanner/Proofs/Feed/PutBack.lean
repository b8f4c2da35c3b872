import ScriptScanner.Proofs.Feed.LookAhead
import ScriptScanner.Proofs.Feed.Recall
set_option autoImplicit false

/-!
# Putting tokens back

A parser may put back what it took, up to three tokens, and expects to be refused only if three wait
already or if all that was taken is put back.  `PutsBack` says so, given the entries that were taken
and are not put back.

A ledger follows a run and keeps those entries, also the ones that the feed has lost to dropped line
breaks.  A feed puts back what it has not lost.  So it does what the parser expects unless it has
lost the latest entry in the ledger, which it then refuses to put back, or the one before it, which
it then does not show.
-/

namespace ScriptScanner

/-! ## Tapes without their lost entries -/

namespace Tape

variable {source : Source} {o : Observer} {m : Tape source} {lost : Nat}

/-- The first tape is the second one without its lost entries, of which there are not more than
there are consumed ones. -/
def IsTrim (lost : Nat) (x m : Tape source) : Prop := x = m.trim lost ∧ lost ≤ m.consumed.length

theorem Trims.isTrim {α : Type} {x y : Outcome source α} (h : Trims lost x y) :
    IsTrim lost x.2 y.2 := by
  obtain ⟨_, _, hle⟩ := h
  exact ⟨rfl, hle⟩

theorem lostByDrop_le (h : lost ≤ m.consumed.length) : m.lostByDrop lost ≤ m.consumed.length := by
  rw [lostByDrop]
  split
  · exact Nat.max_le.mpr ⟨h, Nat.sub_le _ _⟩
  · exact h

theorem isTrim_peek_of_newlines (o : Observer) (h : lost ≤ m.consumed.length)
    (hm : m.flags.newlines = true) :
    IsTrim lost ((m.trim lost).peek ringRoom o).2 (m.peek none o).2 := by
  have hflags : (m.trim lost).flags.newlines = true := hm
  rw [snd_peek, snd_peek, if_pos hflags, if_pos hm]
  exact (trims_ensurePending o h).isTrim

theorem isTrim_peek_of_blanks (o : Observer) (h : lost ≤ m.consumed.length)
    (hm : m.flags.newlines = false) :
    IsTrim (m.lostByDrop lost) ((m.trim lost).peek ringRoom o).2 (m.peek none o).2 := by
  have hblanks : ¬ m.flags.newlines = true := by rw [hm]; exact Bool.false_ne_true
  have hflags : ¬ (m.trim lost).flags.newlines = true := hblanks
  have hle : m.lostByDrop lost ≤ (m.dropPendingNewlines none).consumed.length := by
    rw [consumed_dropPendingNewlines]
    exact lostByDrop_le h
  rw [snd_peek, snd_peek, if_neg hflags, if_neg hblanks, dropPendingNewlines_trim h]
  exact (trims_ensurePending o hle).isTrim

/-- Whatever is asked, a tape without its lost entries stays one, as long as no lost entry is put
back. -/
theorem isTrim_respond (o : Observer) (r : Request) (h : lost ≤ m.consumed.length)
    (hr : r = .putBack → m.InReach lost) :
    IsTrim (m.lostAfter lost r) ((m.trim lost).respond ringRoom o r).2
      (m.respond none o r).2 := by
  cases r with
  | take => exact (trims_take o h).isTrim
  | putBack => exact (trims_putBack o (hr rfl)).isTrim
  | peek =>
    rw [lostAfter]
    cases hm : m.flags.newlines with
    | true => exact isTrim_peek_of_newlines o h hm
    | false => exact isTrim_peek_of_blanks o h hm
  | peekWithinLine =>
    obtain ⟨htrim, hle⟩ := isTrim_peek_of_newlines (m := m.setNewlines true) o h rfl
    refine ⟨?_, hle⟩
    exact congrArg (fun x : Tape source => x.setNewlines m.flags.newlines) htrim
  | accept kindName => exact (trims_accept o kindName h).isTrim
  | demand kindName => exact (trims_demand o kindName h).isTrim
  | setNewlines newlines => exact ⟨rfl, h⟩
  | setOperand operand => exact ⟨rfl, h⟩

end Tape

/-! ## What a parser expects -/

namespace Feed

variable {source : Source} {o : Observer} {z : Feed source}

/-- To put the latest token back does what a parser expects that has these entries in hand, latest
first. -/
structure PutsBack (o : Observer) (z : Feed source) (inHand : List Entry) : Prop where
  overflow_iff : o.FailsWith .lookaheadOverflow (z.putBack o).1 (z.putBack o).2.journal ↔
    z.ring.lookahead = 3
  empty_iff : o.FailsWith .emptyPushback (z.putBack o).1 (z.putBack o).2.journal ↔
    z.ring.lookahead ≠ 3 ∧ inHand = []
  /-- Where it succeeds, the entry before is seen. -/
  succeeds : z.ring.lookahead ≠ 3 → inHand ≠ [] → (z.putBack o).1 = .ok () ∧
    (z.putBack o).2.token = inHand[1]?.map Entry.token ∧
    (z.putBack o).2.line = (inHand[1]?.map Entry.lineAfter).getD 1
  /-- Where it fails, only the journal changes. -/
  unchanged : (z.putBack o).1 ≠ .ok () →
    (z.putBack o).2 = { z with journal := (z.putBack o).2.journal }

theorem failsWith_fail_iff {α : Type} {code : Code} {fault : Fault} :
    o.FailsWith code (z.fail (α := α) o fault).1 (z.fail (α := α) o fault).2.journal ↔
      code = fault.code := by
  have hfails : o.FailsWith fault.code (z.fail (α := α) o fault).1
      (z.fail (α := α) o fault).2.journal :=
    ⟨fault.diagnose z.nextLocation z.filename, z.journal, rfl, rfl, rfl⟩
  exact ⟨fun h => h.unique hfails, fun h => h ▸ hfails⟩

/-- Where three tokens wait, the others do not matter. -/
theorem putsBack_of_full (o : Observer) (inHand : List Entry) (h : z.ring.lookahead = 3) :
    z.PutsBack o inHand := by
  have hput : z.putBack o = z.fail o (.lookaheadOverflow Ring.maxPending) := if_pos h
  refine ⟨?_, ?_, fun hroom => absurd h hroom, fun _ => ?_⟩
  · rw [hput, failsWith_fail_iff]
    exact iff_of_true rfl h
  · rw [hput, failsWith_fail_iff]
    exact iff_of_false Code.noConfusion fun hempty => hempty.1 h
  · rw [hput]
    rfl

theorem putsBack_nil (o : Observer) (hroom : z.ring.lookahead ≠ 3) (h : z.ring.latest = none) :
    z.PutsBack o [] := by
  have hnone : z.ring.latest.isNone = true := by rw [h]; rfl
  have hput : z.putBack o = z.fail o .emptyPushback := (if_neg hroom).trans (if_pos hnone)
  refine ⟨?_, ?_, fun _ hne => absurd rfl hne, fun _ => ?_⟩
  · rw [hput, failsWith_fail_iff]
    exact iff_of_false Code.noConfusion hroom
  · rw [hput, failsWith_fail_iff]
    exact iff_of_true rfl ⟨hroom, rfl⟩
  · rw [hput]
    rfl

/-- Where there is room and a latest entry, putting back turns the ring. -/
theorem putBack_of_latest (o : Observer) {e : Entry} (hroom : z.ring.lookahead ≠ 3)
    (h : z.ring.latest = some e) : z.putBack o = (.ok (), { z with ring := z.ring.back }) := by
  have hsome : ¬ z.ring.latest.isNone = true := by rw [h]; exact Bool.false_ne_true
  exact (if_neg hroom).trans (if_neg hsome)

theorem putsBack_cons (o : Observer) {e : Entry} {rest : List Entry}
    (hroom : z.ring.lookahead ≠ 3) (h : z.ring.latest = some e)
    (hback : z.ring.back.latest = rest.head?) : z.PutsBack o (e :: rest) := by
  have hput := putBack_of_latest o hroom h
  refine ⟨?_, ?_, fun _ _ => ?_, fun hfails => ?_⟩
  · rw [hput]
    exact iff_of_false Observer.not_failsWith_ok hroom
  · rw [hput]
    exact iff_of_false Observer.not_failsWith_ok fun hempty => List.cons_ne_nil e rest hempty.2
  · rw [hput, token, line]
    simp only [hback, List.getElem?_cons_succ, List.head?_eq_getElem?, and_self]
  · rw [hput] at hfails
    exact absurd rfl hfails

/-- A feed puts back what it has. -/
theorem Represents.putsBack {m : Tape source} (o : Observer) (h : z.Represents m) :
    z.PutsBack o m.consumed := by
  have hring := h.ring
  by_cases hfull : z.ring.lookahead = 3
  · exact putsBack_of_full o _ hfull
  · cases hc : m.consumed with
    | nil =>
      rw [hc] at hring
      exact putsBack_nil o hfull hring.latest_eq
    | cons e rest =>
      rw [hc] at hring
      have hlt : m.pending.length < Ring.maxPending :=
        Nat.lt_of_le_of_ne hring.length_le (hring.lookahead_eq ▸ hfull)
      exact putsBack_cons o hfull hring.latest_eq (hring.back hlt).latest_eq

/-- Where putting back succeeds, there is something in hand. -/
theorem PutsBack.ne_nil {inHand : List Entry} (h : z.PutsBack o inHand)
    (hok : (z.putBack o).1.isOk = true) : inHand ≠ [] := by
  rintro rfl
  have hfails : ∃ code, o.FailsWith code (z.putBack o).1 (z.putBack o).2.journal := by
    by_cases hfull : z.ring.lookahead = 3
    · exact ⟨_, h.overflow_iff.mpr hfull⟩
    · exact ⟨_, h.empty_iff.mpr ⟨hfull, rfl⟩⟩
  obtain ⟨_, _, _, _, houtcome, _⟩ := hfails
  rw [houtcome] at hok
  cases hok

/-- Only the two latest entries matter. -/
theorem PutsBack.congr {inHand inHand' : List Entry} (h : z.PutsBack o inHand)
    (hnil : inHand = [] ↔ inHand' = []) (hnext : inHand[1]? = inHand'[1]?) :
    z.PutsBack o inHand' := by
  refine ⟨h.overflow_iff, ?_, fun hroom hne => ?_, h.unchanged⟩
  · rw [h.empty_iff, hnil]
  · rw [← hnext]
    exact h.succeeds hroom (mt hnil.mp hne)

end Feed

/-! ## Ledgers -/

/-- A feed, the tape without bounds on which the same was asked, and the number of entries on the
tape that the feed has lost. -/
structure Ledger (source : Source) where
  feed : Feed source
  tape : Tape source
  lost : Nat

namespace Ledger

variable {source : Source}

/-- The ledger in which nothing is entered. -/
def start (source : Source) (filename : Text) (flags : Flags) : Ledger source :=
  { feed := Feed.start source filename flags, tape := Tape.start source filename flags, lost := 0 }

/-- The ledger after a request.  Where the feed refuses to put a token back, none is put back on the
tape. -/
def respond (o : Observer) (l : Ledger source) (r : Request) : Ledger source :=
  let feed := (l.feed.respond o r).2
  if r = .putBack ∧ (l.feed.putBack o).1.isOk = false then
    { l with feed, tape := { l.tape with journal := feed.journal } }
  else { feed, tape := (l.tape.respond none o r).2, lost := l.tape.lostAfter l.lost r }

/-- The ledger after a run. -/
def after (o : Observer) (l : Ledger source) (requests : List Request) : Ledger source :=
  requests.foldl (respond o) l

/-- The feed has what is on the tape and not lost. -/
structure Balanced (l : Ledger source) : Prop where
  represents : l.feed.Represents (l.tape.trim l.lost)
  lost_le : l.lost ≤ l.tape.consumed.length

theorem balanced_start (source : Source) (filename : Text) (flags : Flags) :
    (start source filename flags).Balanced := by
  have hrep : (Feed.start source filename flags).Represents (Tape.start source filename flags) :=
    Feed.represents_start filename flags
  refine ⟨?_, Nat.zero_le _⟩
  rwa [← Tape.trim_zero (Tape.start source filename flags)] at hrep

variable {o : Observer} {l : Ledger source}

theorem Balanced.inReach (h : l.Balanced) (hok : (l.feed.putBack o).1.isOk = true) :
    l.tape.InReach l.lost := by
  have hne := (h.represents.putsBack o).ne_nil hok
  rw [Tape.trim, Ne, List.take_eq_nil_iff, not_or] at hne
  exact .inr (by omega)

/-- A request keeps a ledger balanced. -/
theorem Balanced.respond (r : Request) (h : l.Balanced) : (l.respond o r).Balanced := by
  rw [Ledger.respond]
  split
  · next hrefused =>
    obtain ⟨rfl, hfails⟩ := hrefused
    have hne : (l.feed.putBack o).1 ≠ .ok () := by
      intro hok
      rw [hok] at hfails
      cases hfails
    have hsame := (h.represents.putsBack o).unchanged hne
    refine ⟨?_, h.lost_le⟩
    change (l.feed.putBack o).2.Represents
      (Tape.trim { l.tape with journal := (l.feed.putBack o).2.journal } l.lost)
    rw [hsame]
    exact ⟨h.represents.filename, h.represents.flags, h.represents.cursor, rfl, h.represents.ring⟩
  · next hdone =>
    have hreach : r = .putBack → l.tape.InReach l.lost := by
      intro hr
      refine h.inReach (o := o) ?_
      rw [← Bool.not_eq_false]
      exact fun hfails => hdone ⟨hr, hfails⟩
    obtain ⟨htrim, hle⟩ := Tape.isTrim_respond o r h.lost_le hreach
    have hrep := (Feed.agrees_respond o r h.represents).represents
    rw [htrim] at hrep
    exact ⟨hrep, hle⟩

theorem Balanced.after (requests : List Request) (h : l.Balanced) :
    (l.after o requests).Balanced := by
  induction requests generalizing l with
  | nil => exact h
  | cons r rest ih => exact ih (h.respond r)

theorem feed_after (o : Observer) (l : Ledger source) (requests : List Request) :
    (l.after o requests).feed = l.feed.after o requests := by
  induction requests generalizing l with
  | nil => rfl
  | cons r rest ih =>
    have hstep : (l.respond o r).feed = (l.feed.respond o r).2 := by
      rw [respond]
      split <;> rfl
    exact (ih _).trans (congrArg (fun z : Feed source => z.after o rest) hstep)

/-- In a balanced ledger a feed puts back what it has not lost.  It does what a parser expects with
all entries of the ledger in hand exactly if three wait, or nothing is lost, or the two latest
entries are not. -/
theorem Balanced.putsBack_iff (o : Observer) (h : l.Balanced) :
    l.feed.PutsBack o l.tape.consumed ↔
      l.feed.ring.lookahead = 3 ∨ l.lost = 0 ∨ l.lost + 1 < l.tape.consumed.length := by
  have htrim := h.represents.putsBack o
  have hle := h.lost_le
  have hlength : (l.tape.trim l.lost).consumed.length = l.tape.consumed.length - l.lost := by
    rw [Tape.trim, List.length_take, Nat.min_eq_left (Nat.sub_le _ _)]
  constructor
  · intro hall
    refine Decidable.byContradiction fun hnot => ?_
    obtain ⟨hroom, hlost, hlen⟩ : l.feed.ring.lookahead ≠ 3 ∧ l.lost ≠ 0 ∧
        l.tape.consumed.length ≤ l.lost + 1 := by omega
    have hne : l.tape.consumed ≠ [] := List.ne_nil_of_length_pos (by omega)
    obtain ⟨hok, htoken, _⟩ := hall.succeeds hroom hne
    have hisOk : (l.feed.putBack o).1.isOk = true := by rw [hok]; rfl
    obtain ⟨_, htoken', _⟩ := htrim.succeeds hroom (htrim.ne_nil hisOk)
    -- the latest entry is the only one that is not lost, so the one before it is not seen
    have hlt : l.lost < l.tape.consumed.length := (h.inReach hisOk).resolve_left hlost
    have htwo : 1 < l.tape.consumed.length := by omega
    obtain ⟨e, he⟩ : ∃ e, l.tape.consumed[1]? = some e := ⟨_, List.getElem?_eq_getElem htwo⟩
    have hunseen : (l.tape.trim l.lost).consumed[1]? = none := by
      rw [List.getElem?_eq_none_iff]
      omega
    rw [htoken, he, hunseen] at htoken'
    cases htoken'
  · rintro (hfull | hlost | hlen)
    · exact Feed.putsBack_of_full o _ hfull
    · rw [hlost, Tape.trim_zero] at htrim
      exact htrim
    · have hne : (l.tape.trim l.lost).consumed ≠ [] := List.ne_nil_of_length_pos (by omega)
      have hne' : l.tape.consumed ≠ [] := List.ne_nil_of_length_pos (by omega)
      exact htrim.congr (iff_of_false hne hne') (List.getElem?_take_of_lt (by omega))

/-- After every run a feed puts back what it has not lost.  It does what a parser expects, with all
that was taken and not put back in hand, exactly if three tokens wait, or nothing was lost to
dropped line breaks, or at least two entries are left in front of the lost ones. -/
theorem putsBack_after_iff (source : Source) (filename : Text) (flags : Flags) (o : Observer)
    (requests : List Request) :
    let l := (start source filename flags).after o requests
    l.feed = (Feed.start source filename flags).after o requests ∧
      l.feed.PutsBack o (l.tape.consumed.take (l.tape.consumed.length - l.lost)) ∧
      (l.feed.PutsBack o l.tape.consumed ↔
        l.feed.ring.lookahead = 3 ∨ l.lost = 0 ∨ l.lost + 1 < l.tape.consumed.length) := by
  intro l
  have hbalanced : l.Balanced := (balanced_start source filename flags).after requests
  exact ⟨feed_after o _ requests, hbalanced.represents.putsBack o, hbalanced.putsBack_iff o⟩

/-- The ledger of the run that goes back over three dropped line breaks, before its last request. -/
def overBreaks : Ledger Feed.threeBreaks :=
  (start Feed.threeBreaks Source.anonymousName ⟨true, true⟩).after .silent
    (Feed.backOverBreaks.take 11)

/-- Two tokens wait, and the first name was taken and is not put back.  The feed has lost it: no
token is seen, and to put it back is refused as if nothing had been taken. -/
theorem not_putsBack_overBreaks :
    overBreaks.feed.ring.lookahead = 2 ∧
      (overBreaks.tape.consumed.map fun e => e.token.start) = [0] ∧
      overBreaks.feed.token = none ∧
      Observer.silent.FailsWith .emptyPushback (overBreaks.feed.putBack .silent).1
        (overBreaks.feed.putBack .silent).2.journal ∧
      ¬ overBreaks.feed.PutsBack .silent overBreaks.tape.consumed := by
  have hconsumed : (overBreaks.tape.consumed.map fun e => e.token.start) = [0] := by
    decide +kernel
  have hsilent : Observer.silent.onError = none := rfl
  have hrefused : Observer.silent.FailsWith .emptyPushback (overBreaks.feed.putBack .silent).1
      (overBreaks.feed.putBack .silent).2.journal :=
    (Observer.failsWith_iff_of_silent hsilent).mpr (by decide +kernel)
  refine ⟨by decide +kernel, hconsumed, by decide +kernel, hrefused, fun h => ?_⟩
  have hnil : overBreaks.tape.consumed = [] := (h.empty_iff.mp hrefused).2
  rw [hnil] at hconsumed
  cases hconsumed

end Ledger

end ScriptScanner
