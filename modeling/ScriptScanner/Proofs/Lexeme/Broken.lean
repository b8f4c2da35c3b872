import ScriptScanner.Proofs.Lexeme.Front
set_option autoImplicit false

/-!
# Where a broken reading stops

A reader that finds a fault says where the fault is reported and how far it got.  What stands at
these two places is definite for each fault: a comment that is not closed takes the rest of the
text, a string or a regular expression stops where its line or the text ends, a number where a digit
is missing, and a unit that begins nothing is not passed over at all.
-/

namespace ScriptScanner

/-- The offset is the end of the text or of one of its lines. -/
def Text.EndsLineAt (t : Text) (i : Nat) : Prop := i = t.length ∨ t[i]? = some CodeUnit.lineFeed

namespace Text.EndsLineAt

variable {t : Text} {i : Nat}

/-- Behind other units, the offset is so much greater. -/
theorem append (units : Text) (h : t.EndsLineAt i) :
    (units ++ t).EndsLineAt (units.length + i) := by
  rcases h with rfl | h
  · exact .inl List.length_append.symm
  · refine .inr ?_
    rwa [List.getElem?_append_right (Nat.le_add_right _ _), Nat.add_sub_cancel_left]

theorem le_length (h : t.EndsLineAt i) : i ≤ t.length := by
  rcases h with rfl | h
  · exact Nat.le_refl _
  · exact Nat.le_of_lt (List.getElem?_eq_some_iff.mp h).1

end Text.EndsLineAt

/-- A literal is not closed: where so many units are passed, the text ahead is read up to the end of
a line or of the text, and the fault is reported where the literal begins. -/
def LeftOpen (t : Text) (passed site n : Nat) : Prop :=
  site = 0 ∧ ∃ k, n = passed + k ∧ t.EndsLineAt k

theorem LeftOpen.append {t : Text} {passed site n : Nat} (units : Text)
    (h : LeftOpen t (passed + units.length) site n) : LeftOpen (units ++ t) passed site n := by
  obtain ⟨hsite, k, rfl, hk⟩ := h
  exact ⟨hsite, units.length + k, Nat.add_assoc _ _ _, hk.append units⟩

theorem leftOpen_nil (passed : Nat) : LeftOpen [] passed 0 passed := ⟨rfl, 0, rfl, .inl rfl⟩

theorem leftOpen_lineFeed (rest : Text) (passed : Nat) :
    LeftOpen (CodeUnit.lineFeed :: rest) passed 0 passed := ⟨rfl, 0, rfl, .inr rfl⟩

/-- The unit begins no name, number, string or operator, and it is neither blank nor a line feed. -/
structure CodeUnit.BeginsNothing (u : CodeUnit) : Prop where
  not_name : CharClass.nameStart.has u = false
  not_digit : CharClass.digit.has u = false
  not_quote : u ≠ CodeUnit.doubleQuote ∧ u ≠ CodeUnit.singleQuote
  not_operator : ∀ o : Operator, o.spelling.head? ≠ some u
  not_blank : u ∉ Trivia.inlineBlanks
  not_lineFeed : u ≠ CodeUnit.lineFeed

/-- Where a fault of the source is reported in a text, and where the reading stops that finds it;
`operand` says whether an operand could stand there. -/
def Fault.StopsAt (t : Text) (operand : Bool) (site stop : Nat) : Fault → Prop
  | illegalCharacter quoted =>
      stop = site ∧ quoted = (Text.firstCharacter (t.drop site)).quoted ∧
        ∃ u, t[site]? = some u ∧ u.BeginsNothing
  | unterminatedComment =>
      t[site]? = some CodeUnit.slash ∧ t[site + 1]? = some CodeUnit.star ∧
        (∀ i, site + 2 ≤ i → ¬ Trivia.closingMark <+: t.drop i) ∧ stop = t.length
  | unterminatedString =>
      (t[site]? = some CodeUnit.doubleQuote ∨ t[site]? = some CodeUnit.singleQuote) ∧
        site < stop ∧ t.EndsLineAt stop
  | unterminatedRegExp | unterminatedClass =>
      t[site]? = some CodeUnit.slash ∧ operand = true ∧ site < stop ∧ t.EndsLineAt stop
  | missingExponent _ =>
      stop = site ∧ (∀ u, t[site]? = some u → CharClass.digit.has u = false) ∧
        ∃ i u, site = i + 1 ∧ t[i]? = some u ∧
          (Numeral.isExponentMarker u = true ∨ Numeral.isSign u = true)
  | missingHexDigits _ =>
      t[site]? = some CodeUnit.zero ∧
        (∃ u, t[site + 1]? = some u ∧ Numeral.isHexMarker u = true) ∧ stop = site + 2 ∧
        ∀ u, t[stop]? = some u → CharClass.hexDigit.has u = false
  | missingToken _ | lookaheadOverflow _ | emptyPushback => False

namespace Fault.StopsAt

variable {t : Text} {operand : Bool} {site stop : Nat} {fault : Fault}

/-- Both places lie in the text, and the reading does not stop before the fault. -/
theorem bounds (h : fault.StopsAt t operand site stop) :
    site ≤ stop ∧ stop ≤ t.length ∧ 0 < t.length := by
  have hlt : ∀ {i u}, t[i]? = some u → i < t.length :=
    fun hu => (List.getElem?_eq_some_iff.mp hu).1
  cases fault with
  | illegalCharacter quoted =>
    obtain ⟨rfl, _, u, hu, _⟩ := h
    have := hlt hu
    omega
  | unterminatedComment =>
    obtain ⟨_, hstar, _, rfl⟩ := h
    have := hlt hstar
    omega
  | unterminatedString =>
    obtain ⟨_, hstop, hline⟩ := h
    have := hline.le_length
    omega
  | unterminatedRegExp | unterminatedClass =>
    obtain ⟨_, _, hstop, hline⟩ := h
    have := hline.le_length
    omega
  | missingExponent numeral =>
    obtain ⟨rfl, _, i, u, rfl, hu, _⟩ := h
    have := hlt hu
    omega
  | missingHexDigits marker =>
    obtain ⟨_, ⟨u, hu, _⟩, rfl, _⟩ := h
    have := hlt hu
    omega
  | missingToken _ | lookaheadOverflow _ | emptyPushback => exact h.elim

/-- What is said of a text from some unit on holds of the whole text, so much further on. -/
theorem of_drop {k : Nat} (h : fault.StopsAt (t.drop k) operand site stop) :
    fault.StopsAt t operand (k + site) (k + stop) := by
  have hk : k ≤ t.length := by
    have hpos := h.bounds.2.2
    rw [List.length_drop] at hpos
    omega
  have hline : ∀ {i}, Text.EndsLineAt (t.drop k) i → t.EndsLineAt (k + i) := by
    intro i hi
    have hfront := hi.append (t.take k)
    rwa [List.take_append_drop, List.length_take_of_le hk] at hfront
  cases fault with
  | illegalCharacter _ =>
    simp only [StopsAt, List.getElem?_drop, List.drop_drop] at h ⊢
    exact ⟨by omega, h.2⟩
  | unterminatedComment =>
    simp only [StopsAt, List.getElem?_drop, List.drop_drop, List.length_drop] at h ⊢
    obtain ⟨hslash, hstar, hopen, rfl⟩ := h
    refine ⟨hslash, hstar, fun i hi => ?_, by omega⟩
    have hi' := hopen (i - k) (by omega)
    rwa [Nat.add_sub_cancel' (by omega)] at hi'
  | unterminatedString =>
    simp only [StopsAt, List.getElem?_drop] at h ⊢
    exact ⟨h.1, by omega, hline h.2.2⟩
  | unterminatedRegExp | unterminatedClass =>
    simp only [StopsAt, List.getElem?_drop] at h ⊢
    exact ⟨h.1, h.2.1, by omega, hline h.2.2.2⟩
  | missingExponent _ =>
    simp only [StopsAt, List.getElem?_drop] at h ⊢
    obtain ⟨rfl, hdigit, i, u, rfl, hu⟩ := h
    exact ⟨rfl, hdigit, k + i, u, by omega, hu⟩
  | missingHexDigits _ =>
    simp only [StopsAt, List.getElem?_drop] at h ⊢
    obtain ⟨hzero, hmarker, rfl, hdigit⟩ := h
    exact ⟨hzero, hmarker, by omega, hdigit⟩
  | missingToken _ | lookaheadOverflow _ | emptyPushback => exact h

end Fault.StopsAt

variable {t rest : Text} {fault : Fault} {site n passed : Nat}

/-! ## Comments -/

namespace Trivia

theorem not_closingMark_of_closingMark?_eq_none (h : closingMark? passed t = none) (i : Nat) :
    ¬ closingMark <+: t.drop i := by
  induction t generalizing passed i with
  | nil => simp [closingMark]
  | cons u rest ih =>
    rw [closingMark?] at h
    split at h
    · cases h
    · next hmark =>
      cases i with
      | succ i => exact ih h i
      | zero =>
        rintro ⟨after, hafter⟩
        apply hmark
        rw [List.drop_zero, closingMark, List.cons_append, List.cons.injEq] at hafter
        simp [← hafter.1, ← hafter.2]

/-- A comment that is not closed is opened, and no closing mark comes after its opening mark. -/
theorem exists_of_comment_eq_unclosed (h : comment t = .unclosed) :
    ∃ rest, t = CodeUnit.slash :: CodeUnit.star :: rest ∧ ∀ i, ¬ closingMark <+: rest.drop i := by
  unfold comment at h
  split at h
  · next u v rest =>
    split at h
    · next hu =>
      split at h
      · next hv =>
        split at h
        · cases h
        · next hnone =>
          exact ⟨rest, by rw [hu, hv], not_closingMark_of_closingMark?_eq_none hnone⟩
      · split at h <;> cases h
    · cases h
  · cases h

/-- Broken trivia stop at a comment that is not closed, behind a gap. -/
theorem stopsAt_of_read_eq_broken {newlines operand : Bool}
    (h : read newlines t = .broken fault site n) : fault.StopsAt t operand site n := by
  obtain ⟨_, gap, after, rfl, _, hunclosed, rfl, rfl, rfl⟩ := isGap_of_readFrom_eq_broken h
  obtain ⟨rest, hrest, hopen⟩ := exists_of_comment_eq_unclosed hunclosed
  have hcomment : Fault.unterminatedComment.StopsAt after operand 0 after.length := by
    rw [hrest]
    refine ⟨rfl, rfl, fun i hi => ?_, rfl⟩
    obtain ⟨j, rfl⟩ := Nat.exists_eq_add_of_le' hi
    exact hopen j
  have hdrop : (gap ++ after).drop gap.length = after := List.drop_left
  rw [← hdrop] at hcomment
  have hwhole := hcomment.of_drop
  rwa [hdrop, Nat.add_zero, ← List.length_append, ← Nat.zero_add gap.length,
    ← Nat.zero_add (gap ++ after).length] at hwhole

end Trivia

/-! ## Strings -/

/-- An escape lies in the text. -/
theorem Escape.read_le_length (t : Text) : (read t).2 ≤ t.length := by
  unfold read
  split
  · simp
  · next u rest =>
    split
    · simp
    · simp only
      split
      · next m _ _ hdigits =>
        rw [Bool.and_eq_true, decide_eq_true_eq] at hdigits
        have hle := List.length_take_le' m rest
        simp only [List.length_cons]
        omega
      · simp
    · split
      · simp
      · split
        · split
          · next hhead =>
            obtain ⟨after, rfl⟩ := List.head?_eq_some_iff.mp hhead
            simp
          · simp
        · split
          · simp only [octalDigits, List.length_cons]
            refine Nat.succ_le_succ (Nat.le_trans (List.takeWhile_prefix _).length_le ?_)
            exact List.length_take_le' _ _
          · simp

theorem StringLiteral.leftOpen_of_readBody_eq_broken {quote : CodeUnit} {decoded : Text}
    (h : readBody quote decoded passed t = .broken fault site n) :
    fault = .unterminatedString ∧ LeftOpen t passed site n := by
  fun_induction readBody quote decoded passed t with
  | case1 =>
    cases h
    exact ⟨rfl, leftOpen_nil _⟩
  | case2 =>
    cases h
    exact ⟨rfl, leftOpen_lineFeed _ _⟩
  | case3 => cases h
  | case4 _ _ rest hempty =>
    cases h
    rw [List.isEmpty_iff.mp hempty]
    exact ⟨rfl, (leftOpen_nil _).append [CodeUnit.backslash]⟩
  | case5 decoded passed rest hsome meaning m hescape _ _ ih =>
    obtain ⟨hfault, hopen⟩ := ih h
    have hm : m ≤ rest.length := by
      have hle := Escape.read_le_length rest
      rwa [hescape] at hle
    have hcut : rest.take m ++ rest.drop m = rest := List.take_append_drop m rest
    have hlength : passed + 1 + m = passed + (CodeUnit.backslash :: rest.take m).length := by
      rw [List.length_cons, List.length_take_of_le hm]
      omega
    rw [hlength] at hopen
    refine ⟨hfault, ?_⟩
    rw [← hcut]
    exact hopen.append (CodeUnit.backslash :: rest.take m)
  | case6 _ _ u rest _ _ _ ih =>
    obtain ⟨hfault, hopen⟩ := ih h
    exact ⟨hfault, hopen.append [u]⟩

theorem StringLiteral.stopsAt_of_read_eq_broken {operand : Bool} {quote : CodeUnit}
    (hquote : quote = CodeUnit.doubleQuote ∨ quote = CodeUnit.singleQuote)
    (h : read (quote :: rest) = .broken fault site n) :
    fault.StopsAt (quote :: rest) operand site n := by
  obtain ⟨rfl, rfl, k, rfl, hk⟩ := leftOpen_of_readBody_eq_broken h
  refine ⟨?_, by omega, hk.append [quote]⟩
  simpa using hquote

/-! ## Regular expressions -/

theorem RegExpLiteral.leftOpen_of_readBody_eq_broken {inClass : Bool}
    (h : readBody inClass passed t = .broken fault site n) :
    (∃ inClass', fault = endFault inClass') ∧ LeftOpen t passed site n := by
  fun_induction readBody inClass passed t with
  | case1 =>
    cases h
    exact ⟨⟨_, rfl⟩, leftOpen_nil _⟩
  | case2 =>
    cases h
    exact ⟨⟨_, rfl⟩, leftOpen_lineFeed _ _⟩
  | case3 =>
    cases h
    exact ⟨⟨_, rfl⟩, (leftOpen_nil _).append [CodeUnit.backslash]⟩
  | case4 =>
    cases h
    exact ⟨⟨_, rfl⟩, (leftOpen_lineFeed _ _).append [CodeUnit.backslash]⟩
  | case5 _ _ v _ _ _ ih => exact ⟨(ih h).1, (ih h).2.append [CodeUnit.backslash, v]⟩
  | case6 _ _ _ _ ih => exact ⟨(ih h).1, (ih h).2.append [CodeUnit.rightBracket]⟩
  | case7 _ u _ _ _ _ ih => exact ⟨(ih h).1, (ih h).2.append [u]⟩
  | case8 => cases h
  | case9 _ _ _ _ _ _ _ ih => exact ⟨(ih h).1, (ih h).2.append [CodeUnit.leftBracket]⟩
  | case10 _ _ u _ _ _ _ _ _ ih => exact ⟨(ih h).1, (ih h).2.append [u]⟩

theorem RegExpLiteral.stopsAt_of_read_eq_broken
    (h : read (CodeUnit.slash :: rest) = .broken fault site n) :
    fault.StopsAt (CodeUnit.slash :: rest) true site n := by
  rw [read_cons] at h
  split at h
  · cases h
  · next hbody =>
    cases h
    obtain ⟨⟨inClass, rfl⟩, rfl, k, rfl, hk⟩ := leftOpen_of_readBody_eq_broken hbody
    have hline := hk.append [CodeUnit.slash]
    cases inClass with
    | false => exact ⟨rfl, rfl, by omega, hline⟩
    | true => exact ⟨rfl, rfl, by omega, hline⟩

/-! ## Numbers -/

namespace Numeral

/-- An exponent without digits ends with its marker or its sign, and the number up to there is
reported. -/
theorem exists_of_readExponent_eq_broken {whole : Text} {fraction : Option Text}
    (h : readExponent whole fraction rest = .broken fault site n) :
    ∃ front last after, rest = front ++ last :: after ∧
      (isExponentMarker last = true ∨ isSign last = true) ∧
      (∀ u ∈ after.head?, CharClass.digit.has u = false) ∧
      fault = .missingExponent (whole ++ (fractionSpelling fraction ++ front) ++ [last]) ∧
      site = n ∧ n = (whole ++ (fractionSpelling fraction ++ front)).length + 1 := by
  obtain hstop | ⟨marker, signed, rfl, hmarker⟩ := stops_or_cons isExponentMarker rest
  · rw [readExponent_of_no_marker hstop] at h
    cases h
  · rcases hsign : splitSign signed with ⟨sign, unsigned⟩
    obtain ⟨rfl, _⟩ := splitsFront_splitSign _ _ _ hsign
    simp only [readExponent, hmarker, if_true, hsign] at h
    split at h
    · next hempty =>
      cases h
      have hdigits : (splitDigits unsigned).1 = [] := List.isEmpty_iff.mp hempty
      have hafter := stops_of_takeWhile_eq_nil hdigits
      cases sign with
      | none =>
        refine ⟨[], marker, unsigned, rfl, .inl hmarker, hafter, ?_, rfl, ?_⟩
        · simp [spelling, Exponent.spelling, fractionSpelling, hdigits]
        · simp [spelling, Exponent.spelling, fractionSpelling, hdigits, Nat.add_assoc]
      | some u =>
        have hu := isSign_of_splitSign hsign
        refine ⟨[marker], u, unsigned, rfl, .inr hu, hafter, ?_, rfl, ?_⟩
        · simp [spelling, Exponent.spelling, fractionSpelling, hdigits]
        · simp [spelling, Exponent.spelling, fractionSpelling, hdigits, Nat.add_assoc]
    · cases h

/-- A decimal numeral is broken at the end of an exponent without digits. -/
theorem exists_of_readDecimal_eq_broken (h : readDecimal t = .broken fault site n) :
    ∃ front last after, t = front ++ last :: after ∧
      (isExponentMarker last = true ∨ isSign last = true) ∧
      (∀ u ∈ after.head?, CharClass.digit.has u = false) ∧
      fault = .missingExponent (front ++ [last]) ∧ site = n ∧ n = front.length + 1 := by
  rcases hdigits : splitDigits t with ⟨whole, afterWhole⟩
  rcases hpoint : splitFraction afterWhole with ⟨fraction, afterFraction⟩
  obtain ⟨rfl, _⟩ := splitsFront_splitDigits _ _ _ hdigits
  obtain ⟨rfl, _⟩ := splitsFront_splitFraction _ _ _ hpoint
  rw [readDecimal, hdigits] at h
  simp only [hpoint] at h
  obtain ⟨front, last, after, rfl, hlast, hafter, hfault, hsite, hn⟩ :=
    exists_of_readExponent_eq_broken h
  exact ⟨whole ++ (fractionSpelling fraction ++ front), last, after, by simp, hlast, hafter, hfault,
    hsite, hn⟩

/-- A number is broken like a decimal one, or right behind a hexadecimal prefix. -/
theorem read_eq_broken_cases (h : read t = .broken fault site n) :
    readDecimal t = .broken fault site n ∨
      ∃ marker rest, t = CodeUnit.zero :: marker :: rest ∧ isHexMarker marker = true ∧
        (∀ u ∈ rest.head?, CharClass.hexDigit.has u = false) ∧
        fault = .missingHexDigits [CodeUnit.zero, marker] ∧ site = 0 ∧ n = 2 := by
  have hparts : readParts t = .broken fault site n := by
    unfold read Reading.map at h
    split at h
    · cases h
    · next hbroken =>
      cases h
      exact hbroken
  cases hprefix : pairAhead (fun u => u = CodeUnit.zero) isHexMarker t with
  | false =>
    rw [readParts_eq_readDecimal hprefix] at hparts
    exact .inl hparts
  | true =>
    match t with
    | first :: second :: rest =>
      obtain ⟨hzero, hmarker⟩ := Bool.and_eq_true_iff.mp hprefix
      obtain rfl := of_decide_eq_true hzero
      have hread : readHexadecimal second rest = .broken fault site n := by
        rw [← hparts]
        exact (if_pos hprefix).symm
      simp only [readHexadecimal] at hread
      split at hread
      · next hempty =>
        cases hread
        exact .inr ⟨second, rest, rfl, hmarker,
          stops_of_takeWhile_eq_nil (List.isEmpty_iff.mp hempty), rfl, rfl, rfl⟩
      · cases hread

theorem stopsAt_of_read_eq_broken {operand : Bool} (h : read t = .broken fault site n) :
    fault.StopsAt t operand site n := by
  obtain hdecimal | ⟨marker, rest, rfl, hmarker, hstop, rfl, rfl, rfl⟩ := read_eq_broken_cases h
  · obtain ⟨front, last, after, rfl, hlast, hafter, rfl, rfl, rfl⟩ :=
      exists_of_readDecimal_eq_broken hdecimal
    have hbehind : (front ++ last :: after)[front.length + 1]? = after.head? := by
      rw [List.getElem?_append_right (Nat.le_add_right _ 1), Nat.add_sub_cancel_left,
        List.getElem?_cons_succ, List.head?_eq_getElem?]
    exact ⟨rfl, fun u hu => hafter u (hbehind ▸ hu), front.length, last, rfl, by simp, hlast⟩
  · rw [List.head?_eq_getElem?] at hstop
    exact ⟨rfl, ⟨marker, rfl, hmarker⟩, rfl, hstop⟩

end Numeral

/-! ## Operators -/

namespace Punctuation

/-- What grows from an operator is an operator. -/
theorem isSome_grow {room : Nat} {spelled : Text}
    (h : (Operator.ofSpelling? spelled).isSome = true) (t : Text) :
    (Operator.ofSpelling? (grow room spelled t)).isSome = true := by
  induction room generalizing spelled t with
  | zero => exact h
  | succ room ih =>
    cases t with
    | nil => exact h
    | cons u rest =>
      rw [grow]
      split
      · next hu => exact ih hu rest
      · exact h

/-- A unit that some operator begins with is an operator. -/
theorem isSome_ofSpelling?_singleton_iff {u : CodeUnit} :
    (Operator.ofSpelling? [u]).isSome = true ↔ ∃ o : Operator, o.spelling.head? = some u := by
  constructor
  · intro h
    obtain ⟨o, ho⟩ := Option.isSome_iff_exists.mp h
    exact ⟨o, by rw [← Operator.ofSpelling?_eq_some_iff.mp ho]; rfl⟩
  · rintro ⟨o, ho⟩
    have hfirst : ∀ o ∈ Operator.all,
        (Operator.ofSpelling? o.spelling.head?.toList).isSome = true := by decide
    have h := hfirst o o.mem_all
    rwa [ho] at h

/-- No operator is read exactly if none begins with the unit. -/
theorem read?_cons_eq_none_iff {u : CodeUnit} :
    read? (u :: rest) = none ↔ ∀ o : Operator, o.spelling.head? ≠ some u := by
  have hread : read? (u :: rest) = none ↔ operator? (u :: rest) = none := by
    unfold read?
    cases operator? (u :: rest) with
    | none => simp
    | some o =>
      simp only
      split <;> simp
  rw [hread, ← not_exists, ← isSome_ofSpelling?_singleton_iff, operator?, Operator.maxLength, grow]
  split
  · next hu =>
    have hsome : (Operator.ofSpelling? (grow 2 ([] ++ [u]) rest)).isSome = true :=
      isSome_grow hu rest
    simp only [List.nil_append] at hu hsome ⊢
    simp [hu, ← Option.isSome_iff_ne_none, hsome]
  · next hu =>
    have hempty : Operator.ofSpelling? [] = none := rfl
    simp only [List.nil_append] at hu
    simp [hu, hempty]

end Punctuation

/-! ## Lexemes -/

theorem Lexeme.stopsAt_of_readMark_eq_broken {operand : Bool} {u : CodeUnit}
    (hname : CharClass.nameStart.has u = false) (hdigit : CharClass.digit.has u = false)
    (hquote : ¬ (u = CodeUnit.doubleQuote || u = CodeUnit.singleQuote) = true)
    (hblank : u ∉ Trivia.inlineBlanks) (h : readMark (u :: rest) = .broken fault site n) :
    fault.StopsAt (u :: rest) operand site n := by
  unfold readMark at h
  split at h
  · cases h
  · next hnone =>
    split at h
    · cases h
    · next hhead =>
      cases h
      refine ⟨rfl, rfl, u, rfl, hname, hdigit, by simpa using hquote,
        Punctuation.read?_cons_eq_none_iff.mp hnone, hblank, ?_⟩
      rintro rfl
      exact hhead rfl

/-- Where a lexeme is broken and no blank stands, the reading stops at its definite place. -/
theorem Lexeme.stopsAt_of_read_eq_broken {operand : Bool}
    (hblank : ∀ u ∈ t.head?, u ∉ Trivia.inlineBlanks)
    (h : read operand t = .broken fault site n) : fault.StopsAt t operand site n := by
  cases t with
  | nil => cases h
  | cons u rest =>
    simp only [read] at h
    split at h
    · cases h
    · next hname =>
      split at h
      · exact Numeral.stopsAt_of_read_eq_broken h
      · next hnumber =>
        split at h
        · next hquote =>
          simp only [Bool.or_eq_true, decide_eq_true_eq] at hquote
          exact StringLiteral.stopsAt_of_read_eq_broken hquote h
        · next hquote =>
          split at h
          · next hslash =>
            simp only [Bool.and_eq_true, decide_eq_true_eq] at hslash
            obtain ⟨rfl, rfl⟩ := hslash
            exact RegExpLiteral.stopsAt_of_read_eq_broken h
          · have hdigit : CharClass.digit.has u = false := by
              simp only [Numeral.startsHere, Bool.or_eq_true, not_or] at hnumber
              simpa using hnumber.1
            exact stopsAt_of_readMark_eq_broken (by simpa using hname) hdigit hquote
              (hblank u rfl) h

/-! ## A unit that begins nothing -/

namespace CodeUnit.BeginsNothing

variable {u : CodeUnit}

theorem ne_slash (hu : u.BeginsNothing) : u ≠ CodeUnit.slash := by
  rintro rfl
  exact hu.not_operator .divide rfl

theorem ne_dot (hu : u.BeginsNothing) : u ≠ CodeUnit.dot := by
  rintro rfl
  exact hu.not_operator .dot rfl

theorem read_trivia (hu : u.BeginsNothing) (newlines : Bool) (rest : Text) :
    Trivia.read newlines (u :: rest) = .found [] 0 :=
  Trivia.read_of_stop hu.ne_slash
    (List.not_mem_cons_of_ne_of_not_mem hu.not_lineFeed hu.not_blank) newlines rest

/-- Whether or not an operand may stand there, the character is reported, and not passed over. -/
theorem read_lexeme (hu : u.BeginsNothing) (operand : Bool) (rest : Text) :
    Lexeme.read operand (u :: rest) =
      .broken (.illegalCharacter (Text.firstCharacter (u :: rest)).quoted) 0 0 := by
  have hnumber : Numeral.startsHere (u :: rest) = false := by
    simp [Numeral.startsHere, hu.not_digit, hu.ne_dot]
  have hnone : Punctuation.read? (u :: rest) = none :=
    Punctuation.read?_cons_eq_none_iff.mpr hu.not_operator
  simp [Lexeme.read, hu.not_name, hnumber, hu.not_quote.1, hu.not_quote.2, hu.ne_slash,
    Lexeme.readMark, hnone, hu.not_lineFeed]

end CodeUnit.BeginsNothing

end ScriptScanner
