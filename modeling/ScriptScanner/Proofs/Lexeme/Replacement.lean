import ScriptScanner.Lexeme.Numeral
import ScriptScanner.Lexeme.Punctuation
import ScriptScanner.Lexeme.Word
import ScriptScanner.Proofs.Trivia
set_option autoImplicit false

/-!
# What comes after a word, a number or an operator

A reader that takes the longest run of some class looks at one unit beyond it, and only to see that
the class ends there.  So what it reads stays the same if the text after it is replaced by another,
as long as that one begins with the same unit, or with a blank, or is empty: no class of a reader
has a blank in it, and no operator.
-/

namespace ScriptScanner

/-- One text may stand in the place of another after a lexeme: it is empty, or begins with a blank,
or begins like the other. -/
def MayReplace (after' after : Text) : Prop :=
  ∀ u ∈ after'.head?, u ∈ after.head? ∨ Trivia.Blank false u

namespace MayReplace

variable {after after' : Text}

theorem refl (after : Text) : MayReplace after after := fun _ hu => .inl hu

theorem nil (after : Text) : MayReplace [] after := nofun

/-- A unit that is no blank is there only if it was there before. -/
theorem mem_head? (h : MayReplace after' after) {u : CodeUnit} (hu : u ∈ after'.head?)
    (hblank : Trivia.isBlank false u = false) : u ∈ after.head? := by
  refine (h u hu).resolve_right fun hu' => ?_
  rw [Trivia.isBlank_iff.mpr hu'] at hblank
  cases hblank

/-- Behind a common beginning the texts may still be replaced. -/
theorem append_left (h : MayReplace after' after) (x : Text) :
    MayReplace (x ++ after') (x ++ after) := by
  cases x with
  | nil => exact h
  | cons u x => exact fun v hv => .inl hv

end MayReplace

/-- The class has no blanks. -/
def Unblank (p : CodeUnit → Bool) : Prop := ∀ u, Trivia.Blank false u → p u = false

/-- A class is without blanks if none of the eight blanks is in it. -/
theorem unblank_of_all {p : CodeUnit → Bool}
    (h : (CodeUnit.lineFeed :: Trivia.inlineBlanks).all (fun u => !p u) = true) : Unblank p := by
  have hnone : ∀ u ∈ CodeUnit.lineFeed :: Trivia.inlineBlanks, p u = false := fun u hu =>
    Bool.not_eq_true' _ ▸ List.all_eq_true.mp h u hu
  rintro u (hspace | ⟨rfl, _⟩)
  · exact hnone u (List.mem_cons_of_mem _ hspace)
  · exact hnone _ List.mem_cons_self

/-- Where no unit of a class stands, none stands after the replacement. -/
theorem Unblank.stop_replace {p : CodeUnit → Bool} {after after' : Text} (hp : Unblank p)
    (h : MayReplace after' after) (hstop : ∀ u ∈ after.head?, p u = false) :
    ∀ u ∈ after'.head?, p u = false := by
  intro u hu
  rcases h u hu with hsame | hblank
  · exact hstop u hsame
  · exact hp u hblank

/-- The reader finds this in the first of two texts, whatever may replace the second. -/
def Finds {α : Type} (reader : Text → Reading α) (a : α) (x after : Text) : Prop :=
  ∀ after', MayReplace after' after → reader (x ++ after') = .found a x.length

/-! ## Runs of a class -/

section Runs

variable {p : CodeUnit → Bool}

/-- A text begins with a unit of the class, or it does not. -/
theorem stops_or_cons (p : CodeUnit → Bool) (t : Text) :
    (∀ u ∈ t.head?, p u = false) ∨ ∃ u rest, t = u :: rest ∧ p u = true := by
  cases t with
  | nil => exact .inl nofun
  | cons u rest =>
    cases hu : p u with
    | false => exact .inl fun v hv => Option.some.inj hv ▸ hu
    | true => exact .inr ⟨u, rest, rfl, hu⟩

/-- Where the longest run is empty, no unit of the class stands. -/
theorem stops_of_takeWhile_eq_nil {t : Text} (h : t.takeWhile p = []) :
    ∀ u ∈ t.head?, p u = false := by
  obtain hstop | ⟨u, rest, rfl, hu⟩ := stops_or_cons p t
  · exact hstop
  · rw [List.takeWhile_cons_of_pos hu] at h
    cases h

/-- The longest run of a class without blanks stays the longest one. -/
theorem cut_replace (hp : Unblank p) {t after' : Text} (h : MayReplace after' (t.dropWhile p)) :
    (t.takeWhile p ++ after').takeWhile p = t.takeWhile p ∧
      (t.takeWhile p ++ after').dropWhile p = after' := by
  have hstop : ∀ u ∈ (t.dropWhile p).head?, p u = false := by
    intro u hu
    rw [← Bool.not_eq_true]
    exact Trivia.not_of_mem_head?_dropWhile p t hu
  exact Trivia.cut_append (fun u hu => List.mem_takeWhile_imp hu) (hp.stop_replace h hstop)

end Runs

/-! ## The first two units -/

/-- A text begins with a unit of one class and then one of another. -/
def pairAhead (p q : CodeUnit → Bool) : Text → Bool
  | u :: v :: _ => p u && q v
  | _ => false

/-- No such pair comes about by a replacement behind a text. -/
theorem pairAhead_replace {p q : CodeUnit → Bool} {x after after' : Text} (hq : Unblank q)
    (hx : x ≠ []) (hr : MayReplace after' after) (h : pairAhead p q (x ++ after) = false) :
    pairAhead p q (x ++ after') = false := by
  match x with
  | [u] =>
    cases after' with
    | nil => rfl
    | cons v rest =>
      rw [List.singleton_append, pairAhead, Bool.and_eq_false_iff]
      rcases hr v rfl with hsame | hblank
      · obtain ⟨tail, rfl⟩ := List.head?_eq_some_iff.mp hsame
        exact Bool.and_eq_false_iff.mp h
      · exact .inr (hq v hblank)
  | u :: v :: y => exact h

/-! ## Words -/

theorem Word.exists_finds {t : Text} {l : Lexeme} {n : Nat} (h : read t = .found l n) :
    ∃ x after, t = x ++ after ∧ n = x.length ∧ Finds read l x after := by
  cases h
  refine ⟨t.takeWhile CharClass.nameContinue.has, t.dropWhile CharClass.nameContinue.has,
    List.takeWhile_append_dropWhile.symm, rfl, fun after' hr => ?_⟩
  rw [read, (cut_replace (unblank_of_all (by decide)) hr).1]

/-! ## Numbers -/

namespace Numeral

/-- What is split off a text is its front, and stays that whatever may replace the rest. -/
def SplitsFront {α : Type} (split : Text → α × Text) (spelling : α → Text) : Prop :=
  ∀ t a after, split t = (a, after) → t = spelling a ++ after ∧
    ∀ after', MayReplace after' after → split (spelling a ++ after') = (a, after')

theorem splitsFront_splitDigits : SplitsFront splitDigits fun digits => digits := by
  intro t digits after h
  cases h
  refine ⟨List.takeWhile_append_dropWhile.symm, fun after' hr => ?_⟩
  obtain ⟨htake, hdrop⟩ := cut_replace (unblank_of_all (by decide)) hr
  exact Prod.ext htake hdrop

/-- A point and the digits after it, if there is a fraction. -/
def fractionSpelling (fraction : Option Text) : Text :=
  (fraction.map (CodeUnit.dot :: ·)).getD []

theorem splitFraction_of_no_dot {t : Text} (h : ∀ u ∈ t.head?, decide (u = CodeUnit.dot) = false) :
    splitFraction t = (none, t) := by
  cases t with
  | nil => rfl
  | cons u rest => exact if_neg (of_decide_eq_false (h u rfl))

theorem splitsFront_splitFraction : SplitsFront splitFraction fractionSpelling := by
  intro t fraction after h
  obtain hstop | ⟨u, rest, rfl, hu⟩ := stops_or_cons (fun u => decide (u = CodeUnit.dot)) t
  · rw [splitFraction_of_no_dot hstop] at h
    cases h
    exact ⟨rfl, fun after' hr => splitFraction_of_no_dot
      ((unblank_of_all (by decide)).stop_replace hr hstop)⟩
  · obtain rfl := of_decide_eq_true hu
    rcases hdigits : splitDigits rest with ⟨digits, beyond⟩
    obtain ⟨hcut, hreplace⟩ := splitsFront_splitDigits rest digits beyond hdigits
    rw [splitFraction, if_pos rfl, hdigits] at h
    cases h
    refine ⟨congrArg (CodeUnit.dot :: ·) hcut, fun after' hr => ?_⟩
    rw [fractionSpelling, Option.map_some, Option.getD_some, List.cons_append, splitFraction,
      if_pos rfl, hreplace after' hr]

theorem splitSign_of_no_sign {t : Text} (h : ∀ u ∈ t.head?, isSign u = false) :
    splitSign t = (none, t) := by
  cases t with
  | nil => rfl
  | cons u rest => exact if_neg (Bool.not_eq_true _ ▸ h u rfl)

theorem isSign_of_splitSign {t rest : Text} {u : CodeUnit} (h : splitSign t = (some u, rest)) :
    isSign u = true := by
  obtain hstop | ⟨v, tail, rfl, hv⟩ := stops_or_cons isSign t
  · rw [splitSign_of_no_sign hstop] at h
    cases h
  · rw [splitSign, if_pos hv] at h
    cases h
    exact hv

theorem splitsFront_splitSign : SplitsFront splitSign Option.toList := by
  intro t sign after h
  obtain hstop | ⟨u, rest, rfl, hu⟩ := stops_or_cons isSign t
  · rw [splitSign_of_no_sign hstop] at h
    cases h
    exact ⟨rfl, fun after' hr => splitSign_of_no_sign
      ((unblank_of_all (by decide)).stop_replace hr hstop)⟩
  · rw [splitSign, if_pos hu] at h
    cases h
    exact ⟨rfl, fun after' _ => if_pos hu⟩

/-- Without an exponent, the numeral is the parts that are known. -/
theorem readExponent_of_no_marker {whole rest : Text} {fraction : Option Text}
    (h : ∀ u ∈ rest.head?, isExponentMarker u = false) :
    readExponent whole fraction rest =
      .found (decimal whole fraction none) (decimal whole fraction none).spelling.length := by
  cases rest with
  | nil => rfl
  | cons u rest => exact if_neg (Bool.not_eq_true _ ▸ h u rfl)

/-- What is found has the known parts at its front, and the exponent after them. -/
theorem exists_of_readExponent {whole rest : Text} {fraction : Option Text} {m : Numeral} {n : Nat}
    (h : readExponent whole fraction rest = .found m n) :
    ∃ x after, rest = x ++ after ∧ n = (whole ++ (fractionSpelling fraction ++ x)).length ∧
      ∀ after', MayReplace after' after →
        readExponent whole fraction (x ++ after') = .found m n := by
  obtain hstop | ⟨marker, signed, rfl, hmarker⟩ := stops_or_cons isExponentMarker rest
  · rw [readExponent_of_no_marker hstop] at h
    cases h
    refine ⟨[], rest, rfl, ?_, fun after' hr => readExponent_of_no_marker ?_⟩
    · rw [← List.append_assoc]
      rfl
    · exact (unblank_of_all (by decide)).stop_replace hr hstop
  · rcases hsign : splitSign signed with ⟨sign, unsigned⟩
    rcases hdigits : splitDigits unsigned with ⟨digits, after⟩
    obtain ⟨rfl, hsigned⟩ := splitsFront_splitSign _ _ _ hsign
    obtain ⟨rfl, hunsigned⟩ := splitsFront_splitDigits _ _ _ hdigits
    refine ⟨marker :: (sign.toList ++ digits), after, ?_, ?_, fun after' hr => ?_⟩
    · rw [List.cons_append, List.append_assoc]
    · simp only [readExponent, hmarker, if_true, hsign, hdigits] at h
      split at h
      · cases h
      · cases h
        rw [← List.append_assoc]
        rfl
    · rw [← h]
      simp only [List.cons_append, List.append_assoc, readExponent, hmarker, if_true, hsign,
        hdigits, hsigned _ (hr.append_left digits), hunsigned _ hr]

theorem exists_finds_of_readDecimal {t : Text} {m : Numeral} {n : Nat}
    (h : readDecimal t = .found m n) :
    ∃ x after, t = x ++ after ∧ n = x.length ∧ Finds readDecimal m x after := by
  rcases hdigits : splitDigits t with ⟨whole, afterWhole⟩
  rcases hpoint : splitFraction afterWhole with ⟨fraction, afterFraction⟩
  obtain ⟨rfl, hwhole⟩ := splitsFront_splitDigits _ _ _ hdigits
  obtain ⟨rfl, hfraction⟩ := splitsFront_splitFraction _ _ _ hpoint
  rw [readDecimal, hdigits] at h
  simp only [hpoint] at h
  obtain ⟨x, after, rfl, rfl, hexponent⟩ := exists_of_readExponent h
  refine ⟨whole ++ (fractionSpelling fraction ++ x), after, ?_, rfl, fun after' hr => ?_⟩
  · rw [List.append_assoc, List.append_assoc]
  · have hx := hr.append_left x
    rw [List.append_assoc, List.append_assoc, readDecimal, hwhole _ (hx.append_left _)]
    simp only [hfraction _ hx]
    exact hexponent after' hr

theorem exists_finds_of_readHexadecimal {marker : CodeUnit} {t : Text} {m : Numeral} {n : Nat}
    (h : readHexadecimal marker t = .found m n) :
    ∃ x after, t = x ++ after ∧ n = x.length + 2 ∧
      ∀ after', MayReplace after' after → readHexadecimal marker (x ++ after') = .found m n := by
  refine ⟨t.takeWhile CharClass.hexDigit.has, t.dropWhile CharClass.hexDigit.has,
    List.takeWhile_append_dropWhile.symm, ?_, fun after' hr => ?_⟩
  · simp only [readHexadecimal] at h
    split at h
    · cases h
    · cases h
      rfl
  · rw [← h, readHexadecimal, (cut_replace (unblank_of_all (by decide)) hr).1, readHexadecimal]

theorem readParts_eq_readDecimal {t : Text}
    (h : pairAhead (fun u => u = CodeUnit.zero) isHexMarker t = false) :
    readParts t = readDecimal t := by
  match t with
  | [] => rfl
  | [_] => rfl
  | first :: second :: rest => exact if_neg (Bool.not_eq_true _ ▸ h)

theorem exists_finds {t : Text} {l : Lexeme} {n : Nat} (ht : startsHere t = true)
    (h : read t = .found l n) :
    ∃ x after, t = x ++ after ∧ n = x.length ∧ Finds read l x after := by
  have hpos := pos_of_read_eq_found ht h
  suffices hparts : ∀ m, readParts t = .found m n →
      ∃ x after, t = x ++ after ∧ n = x.length ∧ Finds readParts m x after by
    rcases hm : readParts t with ⟨m, k⟩ | ⟨fault, site, k⟩
    · rw [read, hm] at h
      cases h
      obtain ⟨x, after, hcut, hlength, hfinds⟩ := hparts m hm
      refine ⟨x, after, hcut, hlength, fun after' hr => ?_⟩
      rw [read, hfinds after' hr]
      rfl
    · rw [read, hm] at h
      cases h
  intro m hm
  cases hprefix : pairAhead (fun u => u = CodeUnit.zero) isHexMarker t with
  | false =>
    rw [readParts_eq_readDecimal hprefix] at hm
    obtain ⟨x, after, rfl, rfl, hfinds⟩ := exists_finds_of_readDecimal hm
    refine ⟨x, after, rfl, rfl, fun after' hr => ?_⟩
    have hx : x ≠ [] := List.length_pos_iff.mp hpos
    rw [readParts_eq_readDecimal (pairAhead_replace (unblank_of_all (by decide)) hx hr hprefix)]
    exact hfinds after' hr
  | true =>
    rcases t with _ | ⟨first, _ | ⟨second, rest⟩⟩
    · cases hprefix
    · cases hprefix
    · have hread : ∀ t', readParts (first :: second :: t') = readHexadecimal second t' :=
        fun _ => if_pos hprefix
      rw [hread] at hm
      obtain ⟨x, after, rfl, rfl, hfinds⟩ := exists_finds_of_readHexadecimal hm
      exact ⟨first :: second :: x, after, rfl, rfl,
        fun after' hr => (hread _).trans (hfinds after' hr)⟩

end Numeral

/-! ## Operators -/

namespace Punctuation

/-- No operator has a blank in it. -/
theorem unblank_ofSpelling? (spelled : Text) :
    Unblank fun u => (Operator.ofSpelling? (spelled ++ [u])).isSome := by
  intro u hblank
  rw [← Bool.not_eq_true]
  intro hsome
  obtain ⟨o, ho⟩ := Option.isSome_iff_exists.mp hsome
  have hmem : u ∈ o.spelling := by
    rw [← Operator.ofSpelling?_eq_some_iff.mp ho]
    exact List.mem_append_right _ List.mem_cons_self
  have hclean : ∀ o ∈ Operator.all, (CodeUnit.lineFeed :: Trivia.inlineBlanks).all
      (fun u => !decide (u ∈ o.spelling)) = true := by decide
  exact of_decide_eq_false (unblank_of_all (hclean o o.mem_all) u hblank) hmem

theorem grow_of_stop {room : Nat} {spelled t : Text}
    (h : ∀ u ∈ t.head?, (Operator.ofSpelling? (spelled ++ [u])).isSome = false) :
    grow room spelled t = spelled := by
  cases room with
  | zero => rfl
  | succ room =>
    cases t with
    | nil => rfl
    | cons u rest => exact if_neg (Bool.not_eq_true _ ▸ h u rfl)

/-- What an operator is grown by is the front of the text. -/
theorem exists_of_grow (room : Nat) (spelled t : Text) :
    ∃ x after, t = x ++ after ∧
      ∀ after', MayReplace after' after → grow room spelled (x ++ after') = spelled ++ x := by
  induction room generalizing spelled t with
  | zero => exact ⟨[], t, rfl, fun _ _ => (List.append_nil spelled).symm⟩
  | succ room ih =>
    obtain hstop | ⟨u, rest, rfl, hu⟩ :=
      stops_or_cons (fun u => (Operator.ofSpelling? (spelled ++ [u])).isSome) t
    · refine ⟨[], t, rfl, fun after' hr => ?_⟩
      rw [List.append_nil]
      exact grow_of_stop ((unblank_ofSpelling? spelled).stop_replace hr hstop)
    · obtain ⟨x, after, rfl, hgrow⟩ := ih (spelled ++ [u]) rest
      refine ⟨u :: x, after, rfl, fun after' hr => ?_⟩
      rw [List.cons_append, grow, if_pos hu, hgrow after' hr, List.append_assoc,
        List.singleton_append]

theorem exists_of_operator? {t : Text} {o : Operator} (h : operator? t = some o) :
    ∃ after, t = o.spelling ++ after ∧
      ∀ after', MayReplace after' after → operator? (o.spelling ++ after') = some o := by
  obtain ⟨x, after, rfl, hgrow⟩ := exists_of_grow Operator.maxLength [] t
  have hx : x = o.spelling := by
    rw [operator?, hgrow after (.refl after), List.nil_append] at h
    exact Operator.ofSpelling?_eq_some_iff.mp h
  refine ⟨after, congrArg (· ++ after) hx, fun after' hr => ?_⟩
  rw [← hx, operator?, hgrow after' hr, hx, List.nil_append, Operator.ofSpelling?_spelling]

theorem read?_of_compound {o : Operator} {after : Text}
    (h : operator? (o.spelling ++ CodeUnit.equals :: after) = some o) (ho : o.compounds = true) :
    read? (o.spelling ++ CodeUnit.equals :: after) =
      some (compoundLexeme o, o.compoundSpelling.length) := by
  rw [read?, h]
  simp only [List.drop_left, ho, Bool.true_and, List.head?_cons, decide_true, if_true]
  rw [Operator.compoundSpelling, List.length_append]
  rfl

theorem read?_of_plain {o : Operator} {after : Text}
    (h : operator? (o.spelling ++ after) = some o)
    (ho : o.compounds = true → after.head? ≠ some CodeUnit.equals) :
    read? (o.spelling ++ after) = some (lexeme o, o.spelling.length) := by
  have hnone : ¬ (o.compounds && decide (after.head? = some CodeUnit.equals)) = true := by
    rw [Bool.and_eq_true, decide_eq_true_eq]
    exact fun hcompound => ho hcompound.1 hcompound.2
  rw [read?, h]
  simp only [List.drop_left]
  rw [if_neg hnone]

theorem exists_of_read? {t : Text} {l : Lexeme} {n : Nat} (h : read? t = some (l, n)) :
    ∃ x after, t = x ++ after ∧ n = x.length ∧
      ∀ after', MayReplace after' after → read? (x ++ after') = some (l, n) := by
  cases ho : operator? t with
  | none =>
    rw [read?, ho] at h
    cases h
  | some o =>
    obtain ⟨after, rfl, hoperator⟩ := exists_of_operator? ho
    by_cases hcompound : o.compounds = true ∧ after.head? = some CodeUnit.equals
    · obtain ⟨hcompounds, hhead⟩ := hcompound
      obtain ⟨beyond, rfl⟩ := List.head?_eq_some_iff.mp hhead
      rw [read?_of_compound ho hcompounds] at h
      cases h
      refine ⟨o.compoundSpelling, beyond, List.append_cons _ _ _, rfl, fun after' hr => ?_⟩
      rw [Operator.compoundSpelling, List.append_assoc, List.singleton_append]
      exact read?_of_compound (hoperator _ (hr.append_left [CodeUnit.equals])) hcompounds
    · have hplain : o.compounds = true → after.head? ≠ some CodeUnit.equals :=
        fun hcompounds hhead => hcompound ⟨hcompounds, hhead⟩
      rw [read?_of_plain ho hplain] at h
      cases h
      refine ⟨o.spelling, after, rfl, rfl, fun after' hr => ?_⟩
      refine read?_of_plain (hoperator after' hr) fun hcompounds hhead => ?_
      exact hplain hcompounds (hr.mem_head? hhead rfl)

end Punctuation

end ScriptScanner
