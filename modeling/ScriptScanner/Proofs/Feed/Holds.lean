import ScriptScanner.Feed.Ring
set_option autoImplicit false

/-!
# The two lists of a ring

`Ring.Holds r known pending` says what a ring stands for: `pending` waits in the slots ahead, first
come first, and `known` lies in the other slots, latest first.  The slots that are not waiting are
a window on `known`, which may be longer than the window, and beyond the end of `known` they are
empty.

Each step of a ring is one step of the two lists.  Only the removal of waiting entries is not: the
slots that it leaves empty cut `known` off at the window as it was before.
-/

namespace ScriptScanner.Ring

variable {α : Type}

/-! ## Slots around the current one -/

theorem behind_zero (r : Ring α) : r.behind 0 = r.latest := by
  have h : r.current - Fin.ofNat 4 0 = r.index 0 := by
    apply Fin.ext
    simp only [index, Fin.val_add, Fin.val_ofNat, Fin.val_sub]
    omega
  simp only [behind, latest, ahead, h]

theorem mem_slots_of_latest_eq {r : Ring α} {entry : α} (h : r.latest = some entry) :
    some entry ∈ r.slots.toList := by
  rw [latest, ahead] at h
  rw [← h, Vector.mem_toList_iff]
  exact Vector.getElem_mem _

/-- Going back in the circle is going ahead by the rest of a turn. -/
theorem behind_eq_ahead (r : Ring α) {k : Nat} (hk : k ≤ 4) : r.behind k = r.ahead (4 - k) := by
  have h : r.current - Fin.ofNat 4 k = r.index (4 - k) := by
    apply Fin.ext
    simp only [index, Fin.val_add, Fin.val_ofNat, Fin.val_sub]
    omega
  simp only [behind, ahead, h]

theorem behind_forward_zero (r : Ring α) : r.forward.behind 0 = r.ahead 1 := by
  rw [behind_zero, latest, ahead_forward]

theorem behind_forward_succ (r : Ring α) (k : Nat) : r.forward.behind (k + 1) = r.behind k := by
  have h : r.forward.current - Fin.ofNat 4 (k + 1) = r.current - Fin.ofNat 4 k := by
    apply Fin.ext
    simp only [forward, index, Fin.val_add, Fin.val_ofNat, Fin.val_sub]
    omega
  simp only [behind, h]
  rfl

theorem behind_back (r : Ring α) (k : Nat) : r.back.behind k = r.behind (k + 1) := by
  have h : r.back.current - Fin.ofNat 4 k = r.current - Fin.ofNat 4 (k + 1) := by
    apply Fin.ext
    simp only [back, Fin.val_ofNat, Fin.val_sub, Fin.val_one]
    omega
  simp only [behind, h]
  rfl

/-! ## Writing slots -/

theorem index_put (r : Ring α) (k j : Nat) (entry : Option α) :
    (r.put k entry).index j = r.index j := rfl

theorem ahead_put_self (r : Ring α) (k : Nat) (entry : Option α) :
    (r.put k entry).ahead k = entry := by
  simp only [ahead, index_put]
  exact Vector.getElem_set_self _

theorem ahead_put_of_ne (r : Ring α) {k j : Nat} (entry : Option α) (h : j % 4 ≠ k % 4) :
    (r.put k entry).ahead j = r.ahead j := by
  have hne : (r.index k).val ≠ (r.index j).val := by
    simp only [index, Fin.val_add, Fin.val_ofNat]
    omega
  simp only [ahead, index_put]
  exact Vector.getElem_set_ne (r.index k).isLt (r.index j).isLt hne

/-- A fresh entry leaves the three entries behind it where they are. -/
theorem behind_push_succ (r : Ring α) (entry : α) {k : Nat} (hk : k < 3) :
    (r.push entry).behind (k + 1) = r.behind k := by
  have h : (r.push entry).current - Fin.ofNat 4 (k + 1) = r.current - Fin.ofNat 4 k := by
    apply Fin.ext
    simp only [push, put, index, Fin.val_add, Fin.val_ofNat, Fin.val_sub]
    omega
  have hne : (r.index 1).val ≠ (r.current - Fin.ofNat 4 k).val := by
    simp only [index, Fin.val_add, Fin.val_ofNat, Fin.val_sub]
    omega
  simp only [behind, h]
  exact Vector.getElem_set_ne (r.index 1).isLt (Fin.isLt _) hne

/-- Filling leaves the slots before and after the filled ones as they are. -/
theorem ahead_fill_of_not_mem (entries : List (Option α)) {r : Ring α} {k j : Nat}
    (hk : k + entries.length ≤ 4) (hj : j < 4) (h : j < k ∨ k + entries.length ≤ j) :
    (r.fill k entries).ahead j = r.ahead j := by
  induction entries generalizing r k with
  | nil => rfl
  | cons entry rest ih =>
    rw [List.length_cons] at hk h
    have hne : j % 4 ≠ k % 4 := by omega
    rw [fill, ih (by omega) (by omega), ahead_put_of_ne r entry hne]

/-- Filling puts the entries into the slots one by one. -/
theorem ahead_fill_add (entries : List (Option α)) {r : Ring α} {k i : Nat}
    (hk : k + entries.length ≤ 4) (hi : i < entries.length) :
    (r.fill k entries).ahead (k + i) = entries[i] := by
  induction entries generalizing r k i with
  | nil => exact absurd hi (Nat.not_lt_zero i)
  | cons entry rest ih =>
    rw [List.length_cons] at hk hi
    cases i with
    | zero =>
      rw [fill, ahead_fill_of_not_mem rest (by omega) (by omega) (by omega), Nat.add_zero,
        ahead_put_self, List.getElem_cons_zero]
    | succ i =>
      have hstep := ih (r := r.put k entry) (k := k + 1) (i := i) (by omega) (by omega)
      rw [fill, List.getElem_cons_succ, ← hstep]
      congr 1
      omega

/-- Behind the filled slots all is as before. -/
theorem behind_fill_of_lt (r : Ring α) {entries : List (Option α)} {k : Nat}
    (h : k + entries.length < 4) : (r.fill 1 entries).behind k = r.behind k := by
  cases k with
  | zero =>
    rw [behind_zero, behind_zero]
    exact ahead_fill_of_not_mem entries (by omega) (by omega) (by omega)
  | succ k =>
    rw [behind_eq_ahead _ (by omega), behind_eq_ahead _ (by omega)]
    exact ahead_fill_of_not_mem entries (by omega) (by omega) (by omega)

/-- Farther behind, the circle comes to the filled slots from their end. -/
theorem behind_fill_of_le (r : Ring α) {entries : List (Option α)} {k : Nat}
    (hlen : entries.length ≤ 3) (hk : k < 4) (h : 4 ≤ k + entries.length) :
    (r.fill 1 entries).behind k = entries[3 - k] := by
  have hslot := ahead_fill_add entries (r := r) (k := 1) (i := 3 - k) (by omega) (by omega)
  rw [behind_eq_ahead _ (by omega), ← hslot]
  congr 1
  omega

/-! ## The lists that a ring holds -/

/-- The ring holds `pending` ahead of the current slot and `known` from there back. -/
structure Holds (r : Ring α) (known pending : List α) : Prop where
  lookahead_eq : r.lookahead = pending.length
  length_le : pending.length ≤ maxPending
  ahead_eq : ∀ k < pending.length, r.ahead (k + 1) = pending[k]?
  behind_eq : ∀ k, k + pending.length < 4 → r.behind k = known[k]?

theorem holds_empty : Holds (empty : Ring α) [] [] where
  lookahead_eq := rfl
  length_le := Nat.zero_le _
  ahead_eq := fun _ h => absurd h (Nat.not_lt_zero _)
  behind_eq := fun k _ => by simp [behind, empty]

namespace Holds

variable {r : Ring α} {known pending : List α} {entry : α}

theorem latest_eq (h : r.Holds known pending) : r.latest = known.head? := by
  have hlen : pending.length ≤ 3 := h.length_le
  rw [← behind_zero, h.behind_eq 0 (by omega), List.head?_eq_getElem?]

theorem ahead_one_eq (h : r.Holds known (entry :: pending)) : r.ahead 1 = some entry := by
  rw [h.ahead_eq 0 (Nat.zero_lt_succ _), List.getElem?_cons_zero]

/-- A ring has no entries but those that it holds. -/
theorem mem_of_mem_slots (h : r.Holds known pending) (he : some entry ∈ r.slots.toList) :
    entry ∈ known.reverse ++ pending := by
  obtain ⟨i, hi, hslot⟩ := List.mem_iff_getElem.mp he
  rw [Vector.length_toList] at hi
  rw [Vector.getElem_toList] at hslot
  have hcurrent := r.current.isLt
  -- the slot lies `k` slots ahead, where the circle is counted from the current one
  obtain ⟨k, hk, hahead⟩ : ∃ k < 4, r.ahead k = some entry := by
    refine ⟨(i + (4 - r.current.val)) % 4, Nat.mod_lt _ (by omega), ?_⟩
    have hindex : (r.index ((i + (4 - r.current.val)) % 4)).val = i := by
      simp only [index, Fin.val_add, Fin.val_ofNat]
      omega
    simp only [ahead, hindex, hslot]
  rw [List.mem_append, List.mem_reverse]
  by_cases hwaits : 0 < k ∧ k ≤ pending.length
  · obtain ⟨j, rfl⟩ : ∃ j, k = j + 1 := ⟨k - 1, by omega⟩
    rw [h.ahead_eq j (by omega)] at hahead
    exact .inr (List.mem_of_getElem? hahead)
  · have hbehind : ∃ j, j + pending.length < 4 ∧ r.behind j = some entry := by
      rcases Nat.eq_zero_or_pos k with rfl | hpos
      · have hlen : pending.length ≤ 3 := h.length_le
        exact ⟨0, by omega, (behind_zero r).trans hahead⟩
      · refine ⟨4 - k, by omega, ?_⟩
        rw [behind_eq_ahead r (Nat.sub_le _ _), Nat.sub_sub_self (Nat.le_of_lt hk)]
        exact hahead
    obtain ⟨j, hj, hentry⟩ := hbehind
    rw [h.behind_eq j hj] at hentry
    exact .inl (List.mem_of_getElem? hentry)

/-- The first waiting entry becomes the latest known one. -/
theorem forward (h : r.Holds known (entry :: pending)) :
    r.forward.Holds (entry :: known) pending := by
  have hlook : r.lookahead = pending.length + 1 := h.lookahead_eq
  have hlen : pending.length + 1 ≤ maxPending := h.length_le
  refine ⟨?_, by omega, ?_, ?_⟩
  · simp only [Ring.forward]
    omega
  · intro k hk
    rw [ahead_forward, h.ahead_eq (k + 1) (Nat.succ_lt_succ hk), List.getElem?_cons_succ]
  · intro k hk
    cases k with
    | zero => rw [behind_forward_zero, h.ahead_one_eq, List.getElem?_cons_zero]
    | succ k =>
      rw [behind_forward_succ, List.getElem?_cons_succ]
      exact h.behind_eq k (by rw [List.length_cons]; omega)

/-- The latest known entry becomes the first to wait. -/
theorem back (h : r.Holds (entry :: known) pending) (hlen : pending.length < maxPending) :
    r.back.Holds known (entry :: pending) := by
  have hlook : r.lookahead = pending.length := h.lookahead_eq
  refine ⟨?_, hlen, ?_, ?_⟩
  · simp only [Ring.back, List.length_cons]
    omega
  · intro k hk
    rw [ahead_back]
    cases k with
    | zero => exact h.latest_eq
    | succ k => rw [List.getElem?_cons_succ]; exact h.ahead_eq k (Nat.lt_of_succ_lt_succ hk)
  · intro k hk
    rw [List.length_cons] at hk
    rw [behind_back, h.behind_eq (k + 1) (by omega), List.getElem?_cons_succ]

/-- While nothing waits, a fresh entry becomes the latest known one. -/
theorem push (h : r.Holds known []) (entry : α) : (r.push entry).Holds (entry :: known) [] := by
  refine ⟨h.lookahead_eq, Nat.zero_le _, fun _ hk => absurd hk (Nat.not_lt_zero _), ?_⟩
  intro k hk
  cases k with
  | zero => rw [behind_zero, latest_push, List.getElem?_cons_zero]
  | succ k =>
    rw [List.length_nil] at hk
    rw [behind_push_succ r entry (by omega), List.getElem?_cons_succ]
    exact h.behind_eq k (by rw [List.length_nil]; omega)

/-- The waiting entries of a ring are the list that waits. -/
theorem pending_eq (h : r.Holds known pending) : r.pending = pending := by
  induction pending generalizing r known with
  | nil => rw [Ring.pending, h.lookahead_eq]; rfl
  | cons entry rest ih =>
    have hlook : 0 < r.lookahead := by rw [h.lookahead_eq]; exact Nat.zero_lt_succ _
    rw [pending_forward hlook h.ahead_one_eq, ih h.forward]

/-- Entries beyond the window are not in the ring, so a ring that holds them holds the others. -/
theorem window (h : r.Holds known pending) :
    r.Holds (known.take (4 - pending.length)) pending := by
  refine ⟨h.lookahead_eq, h.length_le, h.ahead_eq, fun k hk => ?_⟩
  rw [h.behind_eq k hk, List.getElem?_take_of_lt (by omega)]

theorem consumedFrom_eq (h : r.Holds known pending) {k n : Nat} (hn : k + n + pending.length ≤ 4) :
    r.consumedFrom k n = (known.drop k).take n := by
  induction n generalizing k with
  | zero => rfl
  | succ n ih =>
    rw [consumedFrom, h.behind_eq k (by omega)]
    cases hk : known[k]? with
    | none =>
      rw [List.drop_eq_nil_of_le (List.getElem?_eq_none_iff.mp hk), List.take_nil]
    | some entry =>
      obtain ⟨hlt, hentry⟩ := List.getElem?_eq_some_iff.mp hk
      rw [List.drop_eq_getElem_cons hlt, List.take_succ_cons, hentry, ← ih (by omega)]

/-- The consumed entries of a ring are the known ones in its window. -/
theorem consumed_eq (h : r.Holds known pending) :
    r.consumed = known.take (4 - pending.length) := by
  have hlen : pending.length ≤ 3 := h.length_le
  rw [Ring.consumed, h.lookahead_eq, h.consumedFrom_eq (by omega), List.drop_zero]

/-- What is left of the known entries after the removal of waiting ones: all if none was removed,
else those that lay in the window before. -/
theorem keepPending (h : r.Holds known pending) (keep : α → Bool) :
    (r.keepPending keep).Holds
      (if (pending.filter keep).length = pending.length then known
        else known.take (4 - pending.length))
      (pending.filter keep) := by
  have hlen : pending.length ≤ 3 := h.length_le
  have hle : (pending.filter keep).length ≤ pending.length := List.length_filter_le _ _
  rw [Ring.keepPending, h.pending_eq, h.lookahead_eq]
  generalize pending.filter keep = kept at hle ⊢
  have hcount : (kept.map some ++ List.replicate (pending.length - kept.length) none).length =
      pending.length := by
    rw [List.length_append, List.length_map, List.length_replicate]
    omega
  refine ⟨rfl, Nat.le_trans hle hlen, ?_, ?_⟩
  · intro k hk
    have hslot := ahead_fill_add _ (r := r) (k := 1) (i := k)
      (by rw [hcount]; omega) (by rw [hcount]; omega)
    rw [Nat.add_comm 1 k] at hslot
    refine hslot.trans ?_
    rw [List.getElem_append_left (by rw [List.length_map]; exact hk), List.getElem_map,
      List.getElem?_eq_getElem hk]
  · intro k hk
    by_cases hwindow : k + pending.length < 4
    · refine (behind_fill_of_lt r (by rw [hcount]; exact hwindow)).trans ?_
      rw [h.behind_eq k hwindow]
      split
      · rfl
      · rw [List.getElem?_take_of_lt (by omega)]
    · -- the slot was waiting before and is not now, so it is one of the gaps
      refine (behind_fill_of_le r (by rw [hcount]; omega) (by omega) (by omega)).trans ?_
      rw [List.getElem_append_right (by rw [List.length_map]; omega), List.getElem_replicate,
        if_neg (by omega), List.getElem?_eq_none (by rw [List.length_take]; omega)]

end Holds

end ScriptScanner.Ring
