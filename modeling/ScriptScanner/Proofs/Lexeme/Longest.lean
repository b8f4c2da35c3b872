import Mathlib.Data.List.Infix
import ScriptScanner.Proofs.Lexeme.Replacement
import ScriptScanner.Scan
set_option autoImplicit false

/-!
# The longest lexeme at the front of a text

Where several lexemes begin in the same way, a scanner takes the longest one that stands at the
front of the text.  For a class of units that is the longest run.  For operators it is found by
growing one unit at a time: every beginning of a spelling is a spelling, so a step that fails ends
all longer spellings with it.  An equals sign that makes a compound assignment comes after that, and
it needs no look back either, since the operator that it follows is the longest one already.
-/

namespace ScriptScanner

/-! ## Longest texts -/

namespace Text

/-- The text stands at the front of `t` and belongs to the language, and no longer text at that
front does. -/
structure Longest (Language : Text → Prop) (x t : Text) : Prop where
  isFront : x <+: t
  belongs : Language x
  longest : ∀ y, y <+: t → Language y → y.length ≤ x.length

variable {Language : Text → Prop} {x y t : Text}

theorem Longest.unique (hx : Longest Language x t) (hy : Longest Language y t) : x = y := by
  have hlength : x.length = y.length :=
    Nat.le_antisymm (hy.longest x hx.isFront hx.belongs) (hx.longest y hy.isFront hy.belongs)
  exact List.IsPrefix.eq_of_length
    (List.prefix_of_prefix_length_le hx.isFront hy.isFront (Nat.le_of_eq hlength)) hlength

/-- The text is the longest run of a class at the front of `t`. -/
abbrev LongestRun (k : CharClass) (x t : Text) : Prop :=
  Longest (fun y => ∀ u ∈ y, k.has u = true) x t

theorem longestRun_takeWhile (k : CharClass) (t : Text) : LongestRun k (t.takeWhile k.has) t where
  isFront := List.takeWhile_prefix k.has
  belongs _ hu := List.mem_takeWhile_imp hu
  longest := by
    rintro y ⟨z, rfl⟩ hy
    rw [List.takeWhile_append_of_pos hy, List.length_append]
    exact Nat.le_add_right _ _

theorem longestRun_iff {k : CharClass} : LongestRun k x t ↔ x = t.takeWhile k.has := by
  constructor
  · exact fun h => h.unique (longestRun_takeWhile k t)
  · rintro rfl
    exact longestRun_takeWhile k t

end Text

/-! ## Operators -/

theorem Operator.isSome_ofSpelling?_of_prefix {o : Operator} {x : Text} (hx : x <+: o.spelling)
    (hne : x ≠ []) : (ofSpelling? x).isSome = true := by
  have hclosed : ∀ o ∈ all, ∀ x ∈ o.spelling.inits, x ≠ [] → (ofSpelling? x).isSome = true := by
    decide
  exact hclosed o o.mem_all x ((List.mem_inits x _).mpr hx) hne

/-- No compound assignment is written like an operator. -/
theorem Operator.compoundSpelling_ne {o : Operator} (ho : o.compounds = true) (p : Operator) :
    o.compoundSpelling ≠ p.spelling := by
  have hapart : ∀ o ∈ all, o.compounds = true → ∀ p ∈ all, o.compoundSpelling ≠ p.spelling := by
    decide
  exact hapart o o.mem_all ho p p.mem_all

namespace Punctuation

/-- The text is the spelling of an operator, or of the compound assignment that one makes, and this
is the lexeme that it denotes. -/
inductive Writes : Text → Lexeme → Prop where
  | operator (o : Operator) :
      Writes o.spelling { kind := .operator o, content := .text o.spelling }
  | compound {o : Operator} (ho : o.compounds = true) :
      Writes o.compoundSpelling
        { kind := .operator .assign, content := .text o.compoundSpelling,
          applies := some (.operator o) }

/-- The text is the spelling of an operator or of a compound assignment. -/
def IsWritten (x : Text) : Prop := ∃ l, Writes x l

/-- A spelling denotes one lexeme. -/
theorem Writes.unique {x : Text} {l l' : Lexeme} (h : Writes x l) (h' : Writes x l') : l = l' := by
  generalize hx : x = y at h'
  cases h with
  | operator o =>
    cases h' with
    | operator p => rw [Operator.spelling_injective hx]
    | @compound p hp => exact absurd hx.symm (Operator.compoundSpelling_ne hp o)
  | @compound o ho =>
    cases h' with
    | operator p => exact absurd hx (Operator.compoundSpelling_ne ho p)
    | @compound p hp =>
      rw [Operator.spelling_injective (List.append_cancel_right hx)]

variable {t : Text} {o : Operator}

/-- Growing adds units of the text as long as they make an operator, and all that any operator
has. -/
theorem exists_grow_eq {room : Nat} {spelled : Text}
    (hroom : spelled.length + room = Operator.maxLength) (t : Text) :
    ∃ x, x <+: t ∧ grow room spelled t = spelled ++ x ∧
      (x ≠ [] → (Operator.ofSpelling? (spelled ++ x)).isSome = true) ∧
      ∀ (o : Operator) (y : Text), o.spelling = spelled ++ y → y <+: t → y.length ≤ x.length := by
  induction room generalizing spelled t with
  | zero =>
    refine ⟨[], List.nil_prefix, (List.append_nil spelled).symm, (absurd rfl ·), fun o y ho _ => ?_⟩
    have hlength := o.length_spelling_le
    rw [ho, List.length_append] at hlength
    show y.length ≤ 0
    omega
  | succ room ih =>
    obtain hstop | ⟨u, rest, rfl, hu⟩ :=
      stops_or_cons (fun u => (Operator.ofSpelling? (spelled ++ [u])).isSome) t
    · refine ⟨[], List.nil_prefix, ?_, (absurd rfl ·), fun o y ho hy => ?_⟩
      · rw [grow_of_stop hstop, List.append_nil]
      · -- an operator that goes on would have the next unit in its spelling
        cases y with
        | nil => exact Nat.le_refl _
        | cons u y =>
          obtain ⟨after, rfl⟩ := hy
          have hfront : spelled ++ [u] <+: o.spelling :=
            ⟨y, (List.append_cons ..).symm.trans ho.symm⟩
          have hne : spelled ++ [u] ≠ [] :=
            List.append_ne_nil_of_right_ne_nil spelled (List.cons_ne_nil u [])
          have hsome := Operator.isSome_ofSpelling?_of_prefix hfront hne
          rw [hstop u rfl] at hsome
          cases hsome
    · have hgrown : (spelled ++ [u]).length + room = Operator.maxLength := by
        rw [List.length_append, List.length_singleton]
        omega
      obtain ⟨x, hx, hgrow, hsome, hlongest⟩ := ih hgrown rest
      refine ⟨u :: x, (List.prefix_cons_inj u).mpr hx, ?_, fun _ => ?_, fun o y ho hy => ?_⟩
      · rw [grow, if_pos hu, hgrow, ← List.append_cons]
      · rw [List.append_cons]
        cases x with
        | nil => rwa [List.append_nil]
        | cons v x => exact hsome (List.cons_ne_nil v x)
      · cases y with
        | nil => exact Nat.zero_le _
        | cons v y =>
          obtain ⟨rfl, hrest⟩ := List.cons_prefix_cons.mp hy
          exact Nat.succ_le_succ (hlongest o y (ho.trans (List.append_cons spelled v y)) hrest)

/-- The operator that is found is the longest one at the front of the text, and if none is found,
none stands there. -/
theorem operator?_cases (t : Text) :
    (operator? t = none ∧ ∀ o : Operator, ¬ o.spelling <+: t) ∨
      ∃ o, operator? t = some o ∧ o.spelling <+: t ∧
        ∀ p : Operator, p.spelling <+: t → p.spelling.length ≤ o.spelling.length := by
  have hroom : ([] : Text).length + Operator.maxLength = Operator.maxLength := Nat.zero_add _
  obtain ⟨x, hx, hgrow, hsome, hlongest⟩ := exists_grow_eq hroom t
  rw [List.nil_append] at hgrow hsome
  rw [operator?, hgrow]
  cases ho : Operator.ofSpelling? x with
  | none =>
    refine .inl ⟨rfl, fun o hfront => ?_⟩
    have hpos := List.length_pos_iff.mpr o.spelling_ne_nil
    have hlength := hlongest o o.spelling rfl hfront
    have hx : x ≠ [] := List.length_pos_iff.mp (Nat.lt_of_lt_of_le hpos hlength)
    have hfound := hsome hx
    rw [ho] at hfound
    cases hfound
  | some o =>
    obtain rfl := Operator.ofSpelling?_eq_some_iff.mp ho
    exact .inr ⟨o, rfl, hx, fun p hp => hlongest p _ rfl hp⟩

/-- Reading takes the longest spelling at the front of the text, and if nothing is read, no spelling
stands there. -/
theorem read?_cases (t : Text) :
    (read? t = none ∧ ∀ x, IsWritten x → ¬ x <+: t) ∨
      ∃ x l, read? t = some (l, x.length) ∧ Writes x l ∧ Text.Longest IsWritten x t := by
  rcases operator?_cases t with ⟨hnone, hall⟩ | ⟨o, ho, ⟨after, rfl⟩, hlongest⟩
  · refine .inl ⟨by rw [read?, hnone], ?_⟩
    rintro _ ⟨_, ⟨o⟩ | @⟨o, _⟩⟩ hfront
    · exact hall o hfront
    · exact hall o ((List.prefix_append _ _).trans hfront)
  · by_cases hcompound : o.compounds = true ∧ after.head? = some CodeUnit.equals
    · obtain ⟨hcompounds, hhead⟩ := hcompound
      obtain ⟨beyond, rfl⟩ := List.head?_eq_some_iff.mp hhead
      refine .inr ⟨_, _, read?_of_compound ho hcompounds, .compound hcompounds, ?_⟩
      refine ⟨⟨beyond, (List.append_cons ..).symm⟩, ⟨_, .compound hcompounds⟩, ?_⟩
      rintro _ hfront ⟨_, ⟨p⟩ | @⟨p, _⟩⟩
      · exact Nat.le_trans (hlongest p hfront) (List.prefix_append _ _).length_le
      · have hle := hlongest p ((List.prefix_append _ _).trans hfront)
        simpa [Operator.compoundSpelling] using hle
    · have hplain : o.compounds = true → after.head? ≠ some CodeUnit.equals :=
        fun hcompounds hhead => hcompound ⟨hcompounds, hhead⟩
      refine .inr ⟨_, _, read?_of_plain ho hplain, .operator o, ?_⟩
      refine ⟨List.prefix_append _ _, ⟨_, .operator o⟩, ?_⟩
      rintro _ hfront ⟨_, ⟨p⟩ | @⟨p, hp⟩⟩
      · exact hlongest p hfront
      · -- the compound assignment of `o` does not stand there, and another operator is shorter
        have hp' := (List.prefix_append p.spelling [CodeUnit.equals]).trans hfront
        rcases Nat.lt_or_eq_of_le (hlongest p hp') with hlt | heq
        · rw [Operator.compoundSpelling, List.length_append]
          exact hlt
        · have hshorter := List.prefix_of_prefix_length_le hp' (List.prefix_append _ _) heq.le
          obtain rfl := Operator.spelling_injective (hshorter.eq_of_length heq)
          obtain ⟨beyond, rfl⟩ := (List.prefix_append_right_inj p.spelling).mp hfront
          exact absurd rfl (hplain hp)

end Punctuation

namespace Cursor

open Punctuation

variable {source : Source}

/-- What is found at the cursor makes a token that covers it. -/
theorem token_found {c : Cursor source} {l : Lexeme} {n : Nat} (hn : n ≤ c.rest.length) :
    c.token (.found l n) = (.ok (l.tokenAt c.location (c.offset + n : Nat)), c.advanceBy n) := by
  simp only [token, advanceBy_offset, Nat.min_eq_left hn]

/-- No operator is read exactly where no spelling stands at the cursor, and then the cursor stays
unless a line feed is there.  Otherwise the longest spelling is read, as what it denotes. -/
theorem token_operator_longest (c : Cursor source) :
    (Punctuation.read? c.rest = none ↔ ∀ x l, Writes x l → ¬ x <+: c.rest) ∧
      (Punctuation.read? c.rest = none → c.rest.head? ≠ some CodeUnit.lineFeed →
        (c.token (Lexeme.readMark c.rest)).2 = c) ∧
      ∀ l n, Punctuation.read? c.rest = some (l, n) ↔
        ∃ x, Text.Longest IsWritten x c.rest ∧ Writes x l ∧ n = x.length ∧
          c.token (.found l n) =
            (.ok (l.tokenAt c.location (c.offset + x.length : Nat)), c.advanceBy x.length) := by
  refine ⟨?_, fun hnone hhead => ?_, fun l n => ?_⟩
  · rcases read?_cases c.rest with ⟨hnone, hall⟩ | ⟨x, l, hsome, hwrites, hlongest⟩
    · exact iff_of_true hnone fun x l hwrites => hall x ⟨l, hwrites⟩
    · rw [hsome]
      exact iff_of_false (Option.some_ne_none _) fun hall => hall x l hwrites hlongest.isFront
  · rw [Lexeme.readMark, hnone]
    simp only [if_neg hhead, token, advanceBy_zero]
  · rcases read?_cases c.rest with ⟨hnone, hall⟩ | ⟨x, l', hsome, hwrites, hlongest⟩
    · rw [hnone]
      refine iff_of_false (Option.some_ne_none _ ·.symm) ?_
      rintro ⟨x, hlongest, -⟩
      exact hall x hlongest.belongs hlongest.isFront
    · rw [hsome]
      constructor
      · rintro ⟨⟩
        exact ⟨x, hlongest, hwrites, rfl, token_found hlongest.isFront.length_le⟩
      · rintro ⟨y, hlongest', hwrites', rfl, -⟩
        obtain rfl := hlongest.unique hlongest'
        rw [hwrites.unique hwrites']

/-- A compound assignment of four units before an equals sign. -/
def longAssignment : Source := ⟨">>>==", by decide +kernel⟩

theorem token_operator_longest_longAssignment :
    Punctuation.read? longAssignment.text =
        some (compoundLexeme .unsignedRightShift, 4) ∧
      ∃ x, Text.Longest IsWritten x longAssignment.text ∧
        Writes x (compoundLexeme .unsignedRightShift) ∧ 4 = x.length ∧
        (start longAssignment).token (.found (compoundLexeme .unsignedRightShift) 4) =
          (.ok ((compoundLexeme .unsignedRightShift).tokenAt ⟨⟨1, 1⟩, 0⟩ (0 + x.length : Nat)),
            (start longAssignment).advanceBy x.length) := by
  have hread : Punctuation.read? longAssignment.text =
      some (compoundLexeme .unsignedRightShift, 4) := by decide +kernel
  exact ⟨hread, ((token_operator_longest (start longAssignment)).2.2 _ 4).mp hread⟩

end Cursor

end ScriptScanner
