import ScriptScanner.Proofs.Feed.History
import ScriptScanner.Proofs.Tokenization
set_option autoImplicit false

/-!
# Every location is a place

A location is right if it is the place of its offset: its line counts the line feeds before the
offset, and its column counts the units since the last of them.  The locations that a host gets to
see are those of tokens, of faults and of the cursor, and it gets them from single scans, from a run
over a whole source, or from a feed.  In each of these ways, whatever was scanned or asked before
and whatever of it failed, every location is right.
-/

namespace ScriptScanner

variable {source : Source}

/-- The cursors that scans from the beginning arrive at, with any flags and after any failures. -/
inductive Cursor.Scanned : Cursor source → Prop
  | start : Scanned (Cursor.start source)
  | next {c : Cursor source} (flags : Flags) : Scanned c → Scanned (c.next flags).2

theorem Cursor.Scanned.inPlace {c : Cursor source} (h : c.Scanned) : c.InPlace := by
  induction h with
  | start => exact inPlace_start source
  | next flags _ ih => exact (ih.of_next_eq rfl).1

/-! ## Whole sources -/

/-- Where a run over a whole source goes on from a cursor in place, the tokens that it adds and the
fault that it fails with are at places. -/
theorem Tokenization.isPlaceOf_of_run {s : Settings} (p : Progress source)
    (hp : p.cursor.InPlace) (htokens : ∀ t ∈ p.tokens, t.location.IsPlaceOf source) :
    (∀ t ∈ (p.run s).tokens, t.location.IsPlaceOf source) ∧
      ∀ d, (p.run s).failure = some (.diagnostic d) → d.location.IsPlaceOf source := by
  fun_induction Progress.run s p with
  | case1 p flags asked failure cursor journal hscan =>
    refine ⟨fun t ht => htokens t (List.mem_reverse.mp ht), fun d hd => ?_⟩
    cases hd
    obtain ⟨m, hnext, rfl⟩ := Observer.exists_of_scan_eq_diagnostic hscan
    exact hp.isPlaceOf_of_next_eq_error hnext
  | case2 p flags asked t cursor journal hscan after hend =>
    have hnext := Observer.next_eq_ok_of_scan hscan
    obtain ⟨_, _, hcovers, _⟩ := hp.exists_covers_of_next_eq_ok hnext
    refine ⟨fun t' ht => ?_, fun d hd => ?_⟩
    · rcases List.mem_cons.mp (List.mem_reverse.mp ht) with rfl | ht
      · exact hcovers.isPlaceOf_location
      · exact htokens t' ht
    · cases hd
  | case3 p flags asked t cursor journal hscan after hend ih =>
    have hnext := Observer.next_eq_ok_of_scan hscan
    obtain ⟨_, _, hcovers, _⟩ := hp.exists_covers_of_next_eq_ok hnext
    refine ih (hp.of_next_eq hnext).1 fun t' ht => ?_
    rcases List.mem_cons.mp ht with rfl | ht
    · exact hcovers.isPlaceOf_location
    · exact htokens t' ht

/-! ## Feeds -/

/-- The history of a feed that a run arrives at is in order, its ring has no other entries, and what
the next request reports is reported at a place. -/
theorem Feed.Reachable.exists_follows {o : Observer} {z : Feed source} (h : z.Reachable o) :
    ∃ entries, z.cursor.Follows entries ∧ (∀ e, some e ∈ z.ring.slots.toList → e ∈ entries) ∧
      ∀ r d, (z.respond o r).1 = .error (.diagnostic d) → d.location.IsPlaceOf source := by
  obtain ⟨m, hm, hrep⟩ := h.exists_tape
  have hfollows := (Tape.invariant_follows source).of_reachable hm
  refine ⟨m.history, ?_, fun e he => hrep.ring.mem_of_mem_slots he, fun r d hd => ?_⟩
  · rw [hrep.cursor]
    exact hfollows
  · have hkept := (Tape.invariant_follows source).respond Tape.ringRoom o r hfollows
    rw [(Feed.agrees_respond o r hrep).outcome_eq] at hd
    exact hkept.located d hd

/-- A token that is demanded is the one that was taken last. -/
theorem Feed.token_of_demand_eq_ok {o : Observer} {kindName : Text} {z z' : Feed source} {t : Token}
    (h : z.demand o kindName = (.ok t, z')) : z'.token = some t := by
  unfold demand at h
  split at h
  · cases h
  · unfold fail at h
    cases h
  · split at h
    · next htoken =>
      cases h
      exact htoken
    · unfold fail at h
      cases h

/-- No request but a demand returns a token. -/
theorem Feed.token_of_respond_eq_ok {o : Observer} {z : Feed source} {r : Request} {t : Token}
    (h : (z.respond o r).1 = .ok (.token t)) : (z.respond o r).2.token = some t := by
  have hwrap : ∀ {α : Type} (f : α → Answer) (outcome : Except Failure α),
      (∀ a, f a ≠ .token t) → outcome.map f ≠ .ok (.token t) := by
    intro α f outcome hf heq
    cases outcome with
    | error failure => cases heq
    | ok a => exact hf a (Except.ok.inj heq)
  cases r with
  | demand kindName =>
    rcases hd : z.demand o kindName with ⟨outcome, z'⟩
    rw [respond, hd] at h ⊢
    cases outcome with
    | error failure => cases h
    | ok t' =>
      cases h
      exact token_of_demand_eq_ok hd
  | setNewlines newlines => cases h
  | setOperand operand => cases h
  | take => exact absurd h (hwrap _ _ fun _ => Answer.noConfusion)
  | putBack => exact absurd h (hwrap _ _ fun _ => Answer.noConfusion)
  | peek => exact absurd h (hwrap _ _ fun _ => Answer.noConfusion)
  | peekWithinLine => exact absurd h (hwrap _ _ fun _ => Answer.noConfusion)
  | accept kindName => exact absurd h (hwrap _ _ fun _ => Answer.noConfusion)

/-- Every location that is shown is a place of the source: those of the tokens, of the faults and of
the cursor, whether tokens are scanned one by one with any flags, all at once, or for a parser. -/
theorem allLocations_isPlaceOf (source : Source) :
    (∀ c : Cursor source, c.Scanned → c.InPlace ∧ ∀ flags c',
      (∀ t, c.next flags = (.ok t, c') → t.location.IsPlaceOf source) ∧
        ∀ m, c.next flags = (.error m, c') → m.location.IsPlaceOf source) ∧
    (∀ s : Settings, (∀ t ∈ (tokenize source s).tokens, t.location.IsPlaceOf source) ∧
      ∀ d, (tokenize source s).failure = some (.diagnostic d) → d.location.IsPlaceOf source) ∧
    ∀ (o : Observer) (z : Feed source), z.Reachable o → z.cursor.InPlace ∧
      (∀ e, some e ∈ z.ring.slots.toList → e.token.location.IsPlaceOf source) ∧
      ∀ r, (∀ t, (z.respond o r).1 = .ok (.token t) → t.location.IsPlaceOf source) ∧
        ∀ d, (z.respond o r).1 = .error (.diagnostic d) → d.location.IsPlaceOf source := by
  refine ⟨fun c hc => ⟨hc.inPlace, fun flags c' => ⟨fun t ht => ?_, fun m hm => ?_⟩⟩,
    fun s => ?_, fun o z hz => ?_⟩
  · obtain ⟨_, _, hcovers, _⟩ := hc.inPlace.exists_covers_of_next_eq_ok ht
    exact hcovers.isPlaceOf_location
  · exact hc.inPlace.isPlaceOf_of_next_eq_error hm
  · exact Tokenization.isPlaceOf_of_run _ (Cursor.inPlace_start source) (List.forall_mem_nil _)
  · obtain ⟨entries, hfollows, hslots, hreports⟩ := hz.exists_follows
    have hentry : ∀ z' : Feed source, z'.Reachable o → ∀ e, some e ∈ z'.ring.slots.toList →
        e.token.location.IsPlaceOf source := by
      intro z' hz' e he
      obtain ⟨_, hfollows', hslots', _⟩ := hz'.exists_follows
      obtain ⟨_, _, hcovers, _⟩ := hfollows'.isFrom e (hslots' e he)
      exact hcovers.isPlaceOf_location
    refine ⟨hfollows.inPlace, hentry z hz, fun r => ⟨fun t ht => ?_, hreports r⟩⟩
    obtain ⟨e, he, rfl⟩ := Option.map_eq_some_iff.mp (Feed.token_of_respond_eq_ok ht)
    exact hentry _ (.respond r hz) e (Ring.mem_slots_of_latest_eq he)

/-- A name, and a string on the next line that is not closed. -/
def openString : Source := ⟨"a\n'b", by decide +kernel⟩

theorem allLocations_isPlaceOf_openString :
    ((Cursor.start openString).next ⟨false, true⟩).2.Scanned ∧
      (((Cursor.start openString).next ⟨false, true⟩).2.next ⟨false, true⟩).1 =
        .error ⟨.unterminatedString, ⟨⟨2, 1⟩, 2⟩⟩ ∧
      Location.IsPlaceOf ⟨⟨2, 1⟩, 2⟩ openString := by
  have hscanned : ((Cursor.start openString).next ⟨false, true⟩).2.Scanned := .next _ .start
  have hfault : (((Cursor.start openString).next ⟨false, true⟩).2.next ⟨false, true⟩).1 =
      .error ⟨.unterminatedString, ⟨⟨2, 1⟩, 2⟩⟩ := by decide +kernel
  obtain ⟨_, hnext⟩ := (allLocations_isPlaceOf openString).1 _ hscanned
  exact ⟨hscanned, hfault, (hnext ⟨false, true⟩ _).2 _ (Prod.ext hfault rfl)⟩

end ScriptScanner
