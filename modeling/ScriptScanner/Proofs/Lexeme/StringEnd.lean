import ScriptScanner.Proofs.Lexeme.Broken
import ScriptScanner.Proofs.Lexeme.Digits
set_option autoImplicit false

/-!
# Where a string ends

A string is read escape by escape, and how much an escape takes depends on what it denotes.  Where
the string ends does not: a skip that knows of no digits, and passes over a backslash with the unit
behind it, or with a whole carriage return and line feed, meets the closing quote at the same place.
The reason is that an escape takes nothing beyond that but hexadecimal digits, and a digit is no
quote, no backslash and no line break.
-/

namespace ScriptScanner

/-- The length of what a reading finds, if it finds something. -/
def Reading.length? {α : Type} : Reading α → Option Nat
  | .found _ n => some n
  | .broken _ _ _ => none

namespace StringLiteral

/-! ## Quotes -/

/-- The marks that a string may stand in. -/
inductive Quote where
  | single
  | double
  deriving DecidableEq, Repr, Inhabited

namespace Quote

/-- The quote itself. -/
def unit : Quote → CodeUnit
  | single => CodeUnit.singleQuote
  | double => CodeUnit.doubleQuote

/-- The name of the quote, as tokens give it. -/
def name : Quote → Text
  | single => "single"
  | double => "double"

variable (quote : Quote)

theorem variant_unit : variant quote.unit = quote.name := by
  cases quote <;> rfl

theorem unit_ne_lineFeed : quote.unit ≠ CodeUnit.lineFeed := by
  cases quote <;> decide

theorem unit_ne_backslash : quote.unit ≠ CodeUnit.backslash := by
  cases quote <;> decide

theorem hexDigit_unit : CharClass.hexDigit.has quote.unit = false := by
  cases quote <;> decide

theorem octalDigit_unit : CharClass.octalDigit.has quote.unit = false := by
  cases quote <;> decide

end Quote

/-! ## The skip -/

/-- How many units belong to a backslash before this text: a carriage return and a line feed both
do, and of any other text the first unit. -/
def pairLength (t : Text) : Nat :=
  if t.take 2 = [CodeUnit.carriageReturn, CodeUnit.lineFeed] then 2 else 1

/-- How far ahead the closing quote of a string stands, if the string has one.  A backslash is
passed over together with what belongs to it. -/
def closing? (quote : Quote) (t : Text) : Option Nat :=
  match t with
  | [] => none
  | u :: rest =>
      if u = quote.unit then some 0
      else if u = CodeUnit.lineFeed then none
      else if u = CodeUnit.backslash then
        (closing? quote (rest.drop (pairLength rest))).map (· + (pairLength rest + 1))
      else (closing? quote rest).map (· + 1)
  termination_by t.length
  decreasing_by
    · simp only [List.length_drop, List.length_cons]; omega
    · simp only [List.length_cons]; omega

variable {quote : Quote}

/-- In front of a unit that is neither a carriage return nor the end, a backslash has one unit. -/
theorem pairLength_of_ne {u : CodeUnit} (hu : u ≠ CodeUnit.carriageReturn) (rest : Text) :
    pairLength (u :: rest) = 1 := by
  refine if_neg fun h => hu ?_
  rw [List.take_succ_cons] at h
  exact (List.cons.inj h).1

theorem pairLength_carriageReturn (rest : Text) :
    pairLength (CodeUnit.carriageReturn :: rest) =
      if rest.head? = some CodeUnit.lineFeed then 2 else 1 := by
  cases rest with
  | nil => rfl
  | cons v rest => simp [pairLength]

theorem closing?_quote (rest : Text) : closing? quote (quote.unit :: rest) = some 0 := by
  rw [closing?, if_pos rfl]

theorem closing?_lineFeed (rest : Text) :
    closing? quote (CodeUnit.lineFeed :: rest) = none := by
  rw [closing?, if_neg quote.unit_ne_lineFeed.symm, if_pos rfl]

theorem closing?_backslash (rest : Text) :
    closing? quote (CodeUnit.backslash :: rest) =
      (closing? quote (rest.drop (pairLength rest))).map (· + (pairLength rest + 1)) := by
  rw [closing?, if_neg quote.unit_ne_backslash.symm, if_neg (by decide), if_pos rfl]

/-- A unit that means something to the skip: a quote, a line feed or a backslash. -/
def Marks (quote : Quote) (u : CodeUnit) : Prop :=
  u = quote.unit ∨ u = CodeUnit.lineFeed ∨ u = CodeUnit.backslash

theorem closing?_of_not_marks {u : CodeUnit} (hu : ¬ Marks quote u) (rest : Text) :
    closing? quote (u :: rest) = (closing? quote rest).map (· + 1) := by
  obtain ⟨hquote, hfeed, hslash⟩ : u ≠ quote.unit ∧ u ≠ CodeUnit.lineFeed ∧
      u ≠ CodeUnit.backslash := by simpa [Marks] using hu
  rw [closing?, if_neg hquote, if_neg hfeed, if_neg hslash]

/-- The skip stops in front of a quote. -/
theorem getElem?_of_closing?_eq_some {t : Text} {n : Nat} (h : closing? quote t = some n) :
    t[n]? = some quote.unit := by
  fun_induction closing? quote t generalizing n with
  | case1 => cases h
  | case2 =>
    cases h
    rfl
  | case3 => cases h
  | case4 rest _ _ ih =>
    obtain ⟨k, hk, rfl⟩ := Option.map_eq_some_iff.mp h
    have hunit := ih hk
    rwa [List.getElem?_drop, Nat.add_comm] at hunit
  | case5 u rest _ _ _ ih =>
    obtain ⟨k, hk, rfl⟩ := Option.map_eq_some_iff.mp h
    exact ih hk

/-- Units without a meaning are passed over one by one. -/
theorem closing?_append {units : Text} (h : ∀ u ∈ units, ¬ Marks quote u) (rest : Text) :
    closing? quote (units ++ rest) = (closing? quote rest).map (· + units.length) := by
  induction units with
  | nil => exact Option.map_id'.symm
  | cons u units ih =>
    obtain ⟨hu, hunits⟩ := List.forall_mem_cons.mp h
    rw [List.cons_append, closing?_of_not_marks hu, ih hunits, Option.map_map]
    rfl

end StringLiteral

/-! ## What an escape takes -/

namespace Escape

open StringLiteral

/-- An escape that is no line break takes one unit and some digits. -/
theorem exists_digits_of_ne {u : CodeUnit} (hu : u ≠ CodeUnit.carriageReturn) (rest : Text) :
    ∃ digits, digits <+: rest ∧ (∀ v ∈ digits, CharClass.hexDigit.has v = true) ∧
      (read (u :: rest)).2 = 1 + digits.length := by
  have hnone : ∃ digits : Text, digits <+: rest ∧
      (∀ v ∈ digits, CharClass.hexDigit.has v = true) ∧ 1 = 1 + digits.length :=
    ⟨[], List.nil_prefix, nofun, rfl⟩
  simp only [read]
  split
  · exact hnone
  · next n _ _ =>
    split
    · next hdigits =>
      rw [Bool.and_eq_true, decide_eq_true_eq] at hdigits
      exact ⟨rest.take n, List.take_prefix n rest, List.all_eq_true.mp hdigits.2, by
        rw [hdigits.1, Nat.add_comm]⟩
    · exact hnone
  · split
    · exact hnone
    · split
      · refine ⟨_, (List.takeWhile_prefix _).trans (List.take_prefix _ rest), fun v hv => ?_,
          Nat.add_comm _ 1⟩
        exact CharClass.hexDigit_of_octalDigit (List.mem_takeWhile_imp hv)
      · exact hnone

/-- An escape takes what belongs to its backslash, and digits beyond that. -/
theorem exists_digits {t : Text} (ht : t ≠ []) :
    ∃ digits, digits <+: t.drop (pairLength t) ∧
      (∀ v ∈ digits, CharClass.hexDigit.has v = true) ∧
      (read t).2 = pairLength t + digits.length := by
  obtain ⟨u, rest, rfl⟩ := List.exists_cons_of_ne_nil ht
  by_cases hu : u = CodeUnit.carriageReturn
  · subst hu
    exact ⟨[], List.nil_prefix, nofun, (pairLength_carriageReturn rest).symm⟩
  · rw [pairLength_of_ne hu]
    exact exists_digits_of_ne hu rest

end Escape

/-! ## Strings -/

namespace StringLiteral

variable {quote : Quote}

theorem not_marks_of_hexDigit {u : CodeUnit} (hu : CharClass.hexDigit.has u = true) :
    ¬ Marks quote u := by
  have hplain := CharClass.not_mem_of_hexDigit hu
  rintro (rfl | rfl | rfl)
  · rw [quote.hexDigit_unit] at hu
    cases hu
  · exact hplain (by decide)
  · exact hplain (by decide)

/-- The skip finds the same quote whether it passes over what belongs to a backslash or over the
whole escape. -/
theorem closing?_escape {t : Text} (ht : t ≠ []) :
    closing? quote (CodeUnit.backslash :: t) =
      (closing? quote (t.drop (Escape.read t).2)).map (· + ((Escape.read t).2 + 1)) := by
  obtain ⟨digits, ⟨after, hafter⟩, hdigits, hlength⟩ := Escape.exists_digits ht
  have hdrop : t.drop (Escape.read t).2 = after := by
    rw [hlength, ← List.drop_drop, ← hafter, List.drop_left]
  rw [closing?_backslash, ← hafter,
    closing?_append fun v hv => not_marks_of_hexDigit (hdigits v hv), hdrop, Option.map_map]
  congr 1
  funext k
  show k + digits.length + (pairLength t + 1) = k + ((Escape.read t).2 + 1)
  omega

/-- Reading the body of a string ends where the skip meets the quote. -/
theorem length?_readBody (decoded : Text) (passed : Nat) (t : Text) :
    (readBody quote.unit decoded passed t).length? =
      (closing? quote t).map (passed + · + 1) := by
  fun_induction readBody quote.unit decoded passed t with
  | case1 => rw [closing?]; rfl
  | case2 => rw [closing?_lineFeed]; rfl
  | case3 => rw [closing?_quote]; rfl
  | case4 _ _ rest hempty =>
    rw [List.isEmpty_iff.mp hempty, closing?_backslash, List.drop_nil, closing?]
    rfl
  | case5 decoded passed rest hsome meaning k hescape _ _ ih =>
    have hrest : rest ≠ [] := fun hnil => hsome (List.isEmpty_iff.mpr hnil)
    rw [ih, closing?_escape hrest, hescape, Option.map_map]
    congr 1
    funext n
    show passed + 1 + k + n + 1 = passed + (n + (k + 1)) + 1
    omega
  | case6 _ passed u rest hfeed hquote hslash ih =>
    have hu : ¬ Marks quote u := by
      rintro (h | h | h)
      · exact hquote h
      · exact hfeed h
      · exact hslash h
    rw [ih, closing?_of_not_marks hu, Option.map_map]
    congr 1
    funext n
    show passed + 1 + n + 1 = passed + (n + 1) + 1
    omega

/-- A string is read up to its closing quote, and where it has none, that is reported where it
begins. -/
theorem read_cases (quote : Quote) (rest : Text) :
    (∃ n value, closing? quote rest = some n ∧
        read (quote.unit :: rest) = .found (lexeme quote.unit value) (n + 2)) ∨
      closing? quote rest = none ∧
        ∃ n, read (quote.unit :: rest) = .broken .unterminatedString 0 n := by
  have hlength := @length?_readBody quote [] 1 rest
  rw [read]
  rcases hbody : readBody quote.unit [] 1 rest with ⟨x, m⟩ | ⟨fault, site, m⟩
  · rw [hbody] at hlength
    obtain ⟨n, hn, rfl⟩ := Option.map_eq_some_iff.mp hlength.symm
    obtain ⟨value, rfl⟩ := exists_value_of_readBody hbody
    exact .inl ⟨n, value, hn, by rw [Nat.add_comm 1 n]⟩
  · rw [hbody] at hlength
    obtain ⟨rfl, rfl, -⟩ := leftOpen_of_readBody_eq_broken hbody
    exact .inr ⟨Option.map_eq_none_iff.mp hlength.symm, m, rfl⟩

end StringLiteral

/-! ## Tokens -/

namespace Cursor

open StringLiteral

variable {source : Source} {c : Cursor source} {quote : Quote} {rest : Text}

/-- The token of a string with so many units between its quotes. -/
def stringToken (c : Cursor source) (quote : Quote) (value : Text) (between : Nat) : Token :=
  { kind := .string, content := .text value, variant := quote.name, toPosition := c.toPosition,
    start := c.offset, stop := (c.offset + (between + 2) : Nat) }

/-- A string that is found at the cursor makes a token that covers it. -/
theorem token_of_string {value : Text} {n : Nat}
    (h : StringLiteral.read c.rest = .found (lexeme quote.unit value) (n + 2))
    (hn : n + 2 ≤ c.rest.length) :
    c.token (StringLiteral.read c.rest) =
      (.ok (c.stringToken quote value n), c.advanceBy (n + 2)) := by
  rw [h, token, stringToken, lexeme, quote.variant_unit]
  simp only [advanceBy_offset, Nat.min_eq_left hn, Lexeme.tokenAt, location]

/-- A string at the cursor ends right behind the quote that the skip meets first, and it is broken
if the skip meets none; beyond what belongs to its backslash, no escape takes a unit that could end
a string or a line or begin an escape. -/
theorem token_string_closing (h : c.rest = quote.unit :: rest) :
    (∀ n, closing? quote rest = some n →
      source.text[c.offset + (n + 1)]? = some quote.unit ∧
        ∃ value, c.token (StringLiteral.read c.rest) =
          (.ok (c.stringToken quote value n), c.advanceBy (n + 2))) ∧
      (closing? quote rest = none →
        ∃ c', c.token (StringLiteral.read c.rest) =
          (.error ⟨.unterminatedString, c.location⟩, c')) ∧
      ∀ t ≠ [], pairLength t ≤ (Escape.read t).2 ∧
        ∀ u ∈ (t.take (Escape.read t).2).drop (pairLength t),
          CharClass.hexDigit.has u = true ∧
            u ∉ [CodeUnit.singleQuote, CodeUnit.doubleQuote, CodeUnit.backslash,
              CodeUnit.lineFeed, CodeUnit.carriageReturn] := by
  refine ⟨fun n hn => ?_, fun hnone => ?_, fun t ht => ?_⟩
  · have hunit := getElem?_of_closing?_eq_some hn
    have hlt : n < rest.length := (List.getElem?_eq_some_iff.mp hunit).1
    refine ⟨?_, ?_⟩
    · rw [← List.getElem?_drop, ← c.rest_eq, h]
      exact hunit
    · obtain ⟨k, value, hk, hread⟩ | ⟨hnone, -⟩ := read_cases quote rest
      · obtain rfl : n = k := Option.some.inj (hn.symm.trans hk)
        refine ⟨value, token_of_string (h ▸ hread) ?_⟩
        rw [h, List.length_cons]
        omega
      · rw [hnone] at hn
        cases hn
  · obtain ⟨k, value, hk, -⟩ | ⟨-, n, hread⟩ := read_cases quote rest
    · rw [hnone] at hk
      cases hk
    · refine ⟨c.advanceBy n, ?_⟩
      rw [h, hread, token, advanceBy_zero]
  · obtain ⟨digits, ⟨after, hafter⟩, hdigits, hlength⟩ := Escape.exists_digits ht
    refine ⟨hlength ▸ Nat.le_add_right _ _, fun u hu => ?_⟩
    rw [List.drop_take, hlength, Nat.add_sub_cancel_left, ← hafter, List.take_left] at hu
    exact ⟨hdigits u hu, CharClass.not_mem_of_hexDigit (hdigits u hu)⟩

/-- Two strings: in the first a line break is escaped, and an escape that lacks a digit stands
before the quote; the second ends with the source, in a backslash. -/
def brokenEscapes : Source := ⟨"'a\\\r\n\\x4' \"\\u12\\", by decide +kernel⟩

theorem token_string_closing_brokenEscapes :
    (∃ value, (start brokenEscapes).token (StringLiteral.read brokenEscapes.text) =
        (.ok ((start brokenEscapes).stringToken .single value 7),
          (start brokenEscapes).advanceBy 9)) ∧
      ∃ c', ((start brokenEscapes).advanceBy 10).token
          (StringLiteral.read (brokenEscapes.text.drop 10)) =
        (.error ⟨.unterminatedString, ⟨⟨2, 6⟩, 10⟩⟩, c') := by
  have hfirst : (start brokenEscapes).rest =
      Quote.single.unit :: brokenEscapes.text.drop 1 := by decide +kernel
  have hsecond : ((start brokenEscapes).advanceBy 10).rest =
      Quote.double.unit :: brokenEscapes.text.drop 11 := by decide +kernel
  have hclosed : closing? .single (brokenEscapes.text.drop 1) = some 7 := by decide +kernel
  have hopen : closing? .double (brokenEscapes.text.drop 11) = none := by decide +kernel
  obtain ⟨_, hvalue⟩ := (token_string_closing hfirst).1 7 hclosed
  refine ⟨hvalue, ?_⟩
  exact (token_string_closing hsecond).2.1 hopen

end Cursor

end ScriptScanner
