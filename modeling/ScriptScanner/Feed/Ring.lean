set_option autoImplicit false

/-!
# A ring of entries

Four slots in a circle hold the entries that were consumed last and, after them, the entries that
were put back and wait to be consumed again.  Consuming a waiting entry and putting an entry back
only turn the ring; a fresh entry overwrites the oldest slot.  A slot may be empty, before the
ring has been around once and where waiting entries were removed.

Two lists say what a ring holds: `pending`, the waiting entries in the order in which they will
be consumed, and `consumed`, the others from the latest back to the first empty slot.
-/

namespace ScriptScanner

/-- Four slots, the slot of the latest consumed entry, and the number of waiting entries. -/
structure Ring (α : Type) where
  slots : Vector (Option α) 4
  current : Fin 4
  lookahead : Nat
  deriving DecidableEq, Repr, Inhabited

namespace Ring

variable {α : Type}

/-- The greatest number of waiting entries: all slots but the one of the current entry. -/
def maxPending : Nat := 3

/-- The ring that holds nothing. -/
def empty : Ring α := ⟨Vector.replicate 4 none, 0, 0⟩

/-- The index of the slot that lies `k` slots ahead of the current one. -/
def index (r : Ring α) (k : Nat) : Fin 4 := r.current + Fin.ofNat 4 k

/-- The entry `k` slots ahead; the current one for zero. -/
def ahead (r : Ring α) (k : Nat) : Option α := r.slots[(r.index k).val]

/-- The entry `k` slots behind. -/
def behind (r : Ring α) (k : Nat) : Option α := r.slots[(r.current - Fin.ofNat 4 k).val]

/-- The latest consumed entry. -/
def latest (r : Ring α) : Option α := r.ahead 0

/-- Puts something into the slot `k` slots ahead. -/
def put (r : Ring α) (k : Nat) (entry : Option α) : Ring α :=
  { r with slots := r.slots.set (r.index k).val entry (r.index k).isLt }

/-- Consumes the first waiting entry. -/
def forward (r : Ring α) : Ring α :=
  { r with current := r.index 1, lookahead := r.lookahead - 1 }

/-- Puts the latest entry back. -/
def back (r : Ring α) : Ring α :=
  { r with current := r.current - 1, lookahead := r.lookahead + 1 }

/-- Consumes a fresh entry. -/
def push (r : Ring α) (entry : α) : Ring α :=
  let r' := r.put 1 (some entry)
  { r' with current := r'.index 1 }

/-- Fills the slots ahead, from the `k`th on, with the given entries. -/
def fill (r : Ring α) (k : Nat) : List (Option α) → Ring α
  | [] => r
  | entry :: rest => (r.put k entry).fill (k + 1) rest

/-! ## What a ring holds -/

/-- The waiting entries, in the order in which they will be consumed. -/
def pending (r : Ring α) : List α :=
  (List.range r.lookahead).filterMap fun k => r.ahead (k + 1)

/-- The consumed entries from the `k`th behind the current one on, at most `n` of them. -/
def consumedFrom (r : Ring α) (k : Nat) : Nat → List α
  | 0 => []
  | n + 1 =>
      match r.behind k with
      | some entry => entry :: r.consumedFrom (k + 1) n
      | none => []

/-- The consumed entries, latest first. -/
def consumed (r : Ring α) : List α := r.consumedFrom 0 (4 - r.lookahead)

/-- Removes waiting entries; those that are kept move up and leave empty slots behind them. -/
def keepPending (r : Ring α) (keep : α → Bool) : Ring α :=
  let kept := r.pending.filter keep
  let gaps := List.replicate (r.lookahead - kept.length) none
  { r.fill 1 (kept.map some ++ gaps) with lookahead := kept.length }

/-! ## What the steps do to the views -/

/-- After a step forward every slot is one step nearer. -/
@[simp] theorem ahead_forward (r : Ring α) (k : Nat) : r.forward.ahead k = r.ahead (k + 1) := by
  have h : r.forward.index k = r.index (k + 1) := by
    apply Fin.ext
    simp only [forward, index, Fin.val_add, Fin.val_ofNat]
    omega
  simp only [ahead, h]
  rfl

/-- After a step back every slot is one step farther. -/
@[simp] theorem ahead_back (r : Ring α) (k : Nat) : r.back.ahead (k + 1) = r.ahead k := by
  have h : r.back.index (k + 1) = r.index k := by
    apply Fin.ext
    simp only [back, index, Fin.val_add, Fin.val_ofNat, Fin.val_sub, Fin.val_one]
    omega
  simp only [ahead, h]
  rfl

/-- A step forward undoes a step back. -/
@[simp] theorem forward_back (r : Ring α) : r.back.forward = r := by
  have h : r.back.index 1 = r.current := by
    apply Fin.ext
    simp only [back, index, Fin.val_add, Fin.val_ofNat, Fin.val_sub, Fin.val_one]
    omega
  rw [forward, h]
  rfl

/-- The entry that was put back is the first to wait. -/
theorem pending_back {r : Ring α} {entry : α} (h : r.latest = some entry) :
    r.back.pending = entry :: r.pending := by
  have hahead : (fun k => r.back.ahead (k + 1)) = r.ahead := funext (ahead_back r)
  have hlook : r.back.lookahead = r.lookahead + 1 := rfl
  rw [latest] at h
  rw [pending, hahead, hlook, List.range_succ_eq_map, List.filterMap_cons, h, List.filterMap_map]
  rfl

/-- The entry that is consumed was the first to wait. -/
theorem pending_forward {r : Ring α} {entry : α} (hr : 0 < r.lookahead)
    (h : r.ahead 1 = some entry) : r.pending = entry :: r.forward.pending := by
  obtain ⟨n, hn⟩ : ∃ n, r.lookahead = n + 1 := ⟨r.lookahead - 1, by omega⟩
  have hahead : r.forward.ahead = fun k => r.ahead (k + 1) := funext (ahead_forward r)
  have hlook : r.forward.lookahead = n := by simp [forward, hn]
  rw [pending, hn, List.range_succ_eq_map, List.filterMap_cons, h, List.filterMap_map, pending,
    hlook, hahead]
  rfl

/-- A fresh entry is the latest. -/
@[simp] theorem latest_push (r : Ring α) (entry : α) : (r.push entry).latest = some entry := by
  have h : (r.push entry).index 0 = r.index 1 := by
    apply Fin.ext
    simp only [push, put, index, Fin.val_add, Fin.val_ofNat]
    omega
  simp only [latest, ahead, h]
  simp [push, put]

end Ring

end ScriptScanner
