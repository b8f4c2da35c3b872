import ScriptScanner.Proofs.Lexeme.Broken
import ScriptScanner.Proofs.Lexeme.Digits
set_option autoImplicit false

/-!
# What a failed scan quotes

Three of the faults of a source quote it.  An illegal character is quoted whole, between double
quotes and escaped; a number without an exponent is quoted from its first unit up to the place where
a digit is missing; and a hexadecimal prefix is the two units at the place of the fault.  What is
quoted is said here of the source as a whole, by the offset that is reported and the offset where
the lexeme begins.
-/

namespace ScriptScanner

/-! ## Characters and how they are quoted -/

namespace Text

/-- The character at an offset: both units of a surrogate pair, or else a single unit. -/
inductive CharacterAt (t : Text) (i : Nat) : Text → Prop
  | pair {u v : CodeUnit} (hu : t[i]? = some u) (hv : t[i + 1]? = some v)
      (high : u.isHighSurrogate = true) (low : v.isLowSurrogate = true) : CharacterAt t i [u, v]
  | single {u : CodeUnit} (hu : t[i]? = some u)
      (unpaired : u.isHighSurrogate = true → ∀ v, t[i + 1]? = some v → v.isLowSurrogate = false) :
      CharacterAt t i [u]

theorem characterAt_firstCharacter {t : Text} {i : Nat} {u : CodeUnit} (h : t[i]? = some u) :
    t.CharacterAt i (firstCharacter (t.drop i)) := by
  obtain ⟨rest, hrest⟩ := List.head?_eq_some_iff.mp (List.head?_drop.trans h)
  have hnext : t[i + 1]? = rest.head? := by
    rw [← List.head?_drop, ← List.drop_drop, hrest, List.drop_one, List.tail_cons]
  rw [hrest]
  cases rest with
  | nil => exact .single h fun _ v hv => by rw [hnext] at hv; cases hv
  | cons v rest =>
    rw [firstCharacter]
    split
    · next hpair =>
      obtain ⟨high, low⟩ := Bool.and_eq_true_iff.mp hpair
      exact .pair h hnext high low
    · next hpair =>
      refine .single h fun high w hw => ?_
      cases hnext.symm.trans hw
      simpa [high] using hpair

/-- The units with a short escape, each with the unit that stands for it behind a backslash. -/
def shortEscapes : List (CodeUnit × CodeUnit) :=
  [(CodeUnit.doubleQuote, CodeUnit.doubleQuote), (CodeUnit.backslash, CodeUnit.backslash),
    (CodeUnit.backspace, 0x62), (CodeUnit.tab, 0x74), (CodeUnit.lineFeed, 0x6E),
    (CodeUnit.formFeed, 0x66), (CodeUnit.carriageReturn, 0x72)]

/-- How a character is written between double quotes. -/
inductive WrittenAs : (character written : Text) → Prop
  | pair {u v : CodeUnit} (high : u.isHighSurrogate = true) (low : v.isLowSurrogate = true) :
      WrittenAs [u, v] [u, v]
  | itself {u : CodeUnit} (noShort : ∀ e, (u, e) ∉ shortEscapes) (visible : CodeUnit.space ≤ u)
      (scalar : u.isSurrogate = false) : WrittenAs [u] [u]
  | short {u e : CodeUnit} (escape : (u, e) ∈ shortEscapes) :
      WrittenAs [u] [CodeUnit.backslash, e]
  | digits {u : CodeUnit} {digits : Text} (noShort : ∀ e, (u, e) ∉ shortEscapes)
      (coded : u < CodeUnit.space ∨ u.isSurrogate = true) (spells : Spells 16 digits u.toNat)
      (length_eq : digits.length = 4)
      (lower : ∀ d ∈ digits, d ∈ Text.ofString "0123456789abcdef") :
      WrittenAs [u] (CodeUnit.backslash :: 0x75 :: digits)

/-- The text is the character between double quotes. -/
def Quotes (quote character : Text) : Prop :=
  ∃ written, WrittenAs character written ∧
    quote = CodeUnit.doubleQuote :: (written ++ [CodeUnit.doubleQuote])

theorem writtenAs_unicodeEscape {u : CodeUnit} (noShort : ∀ e, (u, e) ∉ shortEscapes)
    (coded : u < CodeUnit.space ∨ u.isSurrogate = true) : WrittenAs [u] (unicodeEscape u) := by
  have hdigit : ∀ n < 16, (hexDigit n, n) ∈ digitTable ∧
      hexDigit n ∈ Text.ofString "0123456789abcdef" := by decide +kernel
  have hlt : u.toNat < 65536 := u.toNat_lt
  obtain ⟨h₁, hl₁⟩ := hdigit (u.toNat / 0x1000) (by omega)
  obtain ⟨h₂, hl₂⟩ := hdigit (u.toNat / 0x100 % 0x10) (by omega)
  obtain ⟨h₃, hl₃⟩ := hdigit (u.toNat / 0x10 % 0x10) (by omega)
  obtain ⟨h₄, hl₄⟩ := hdigit (u.toNat % 0x10) (by omega)
  have hempty : Spells 16 [] 0 := .nil
  have hspells := (((hempty.concat h₁ (by omega)).concat h₂ (by omega)).concat h₃
    (by omega)).concat h₄ (by omega)
  have hvalue : 16 * (16 * (16 * (16 * 0 + u.toNat / 0x1000) + u.toNat / 0x100 % 0x10) +
      u.toNat / 0x10 % 0x10) + u.toNat % 0x10 = u.toNat := by omega
  rw [hvalue] at hspells
  refine .digits noShort coded hspells rfl ?_
  intro d hd
  simp only [List.mem_cons, List.not_mem_nil, or_false] at hd
  rcases hd with rfl | rfl | rfl | rfl <;> assumption

theorem writtenAs_quotedUnit (u : CodeUnit) : WrittenAs [u] (quotedUnit u) := by
  by_cases hshort : ∃ e, (u, e) ∈ shortEscapes
  · obtain ⟨e, he⟩ := hshort
    have htable : (shortEscapes.all fun row =>
        quotedUnit row.1 = [CodeUnit.backslash, row.2]) = true := by decide +kernel
    rw [of_decide_eq_true (List.all_eq_true.mp htable _ he)]
    exact .short he
  · rw [not_exists] at hshort
    have hother : ∀ row ∈ shortEscapes, u ≠ row.1 := by
      rintro ⟨v, e⟩ hrow rfl
      exact hshort e hrow
    simp only [shortEscapes, List.forall_mem_cons] at hother
    have hunit : quotedUnit u =
        if u < CodeUnit.space || u.isSurrogate then unicodeEscape u else [u] := by
      simp [quotedUnit, hother]
    rw [hunit]
    split
    · next hodd =>
      rw [Bool.or_eq_true, decide_eq_true_eq] at hodd
      exact writtenAs_unicodeEscape hshort hodd
    · next hodd =>
      rw [Bool.or_eq_true, decide_eq_true_eq, not_or, Bool.not_eq_true] at hodd
      exact .itself hshort (UInt16.not_lt.mp hodd.1) hodd.2

theorem CharacterAt.quotes_quoted {t character : Text} {i : Nat} (h : t.CharacterAt i character) :
    character.quoted.Quotes character := by
  cases h with
  | @pair u v _ _ high low =>
    refine ⟨[u, v], .pair high low, ?_⟩
    simp [quoted, quotedBody, high, low]
  | @single u => exact ⟨quotedUnit u, writtenAs_quotedUnit u, rfl⟩

end Text

/-! ## Quotations of a source -/

/-- The text that a fault gives to its message. -/
def Fault.quote : Fault → Text
  | illegalCharacter quoted => quoted
  | missingExponent numeral => numeral
  | missingHexDigits marker => marker
  | missingToken expected => expected
  | lookaheadOverflow limit => (Double.ofNat limit).text
  | unterminatedComment | unterminatedString | unterminatedRegExp | unterminatedClass
  | emptyPushback => []

/-- What a condition quotes of a text, where the lexeme begins at `start` and the condition is
reported at `site`. -/
def Code.Quotes (t : Text) (start site : Nat) (quote : Text) : Code → Prop
  | illegalCharacter => ∃ character, t.CharacterAt site character ∧ quote.Quotes character
  | missingExponent =>
      Numeral.startsHere (t.drop start) = true ∧ quote = t.slice start site
  | missingHexDigits => quote = t.slice site (site + 2 : Nat) ∧ quote.length = 2
  | unterminatedString | unterminatedRegExp | unterminatedClass => quote = []
  | unterminatedComment | missingToken | lookaheadOverflow | emptyPushback => False

/-- What is quoted of a text from some unit on is quoted of the whole text, so much further on. -/
theorem Code.Quotes.of_drop {t quote : Text} {k start site : Nat} {code : Code}
    (h : code.Quotes (t.drop k) start site quote) :
    code.Quotes t (k + start) (k + site) quote := by
  cases code with
  | illegalCharacter =>
    obtain ⟨character, hcharacter, hquote⟩ := h
    refine ⟨character, ?_, hquote⟩
    cases hcharacter with
    | pair hu hv high low =>
      rw [List.getElem?_drop] at hu hv
      exact .pair hu hv high low
    | single hu unpaired =>
      rw [List.getElem?_drop] at hu unpaired
      exact .single hu unpaired
  | missingExponent =>
    obtain ⟨hstarts, hquote⟩ := h
    rw [List.drop_drop] at hstarts
    refine ⟨hstarts, ?_⟩
    rw [hquote, Text.slice_natCast, Text.slice_natCast, List.drop_drop, Nat.add_sub_add_left]
  | missingHexDigits =>
    obtain ⟨hquote, hlength⟩ := h
    refine ⟨?_, hlength⟩
    rw [hquote, Text.slice_natCast, Text.slice_natCast, List.drop_drop, Nat.add_assoc,
      Nat.add_sub_cancel_left, ← Nat.add_assoc, Nat.add_sub_cancel_left]
  | unterminatedString | unterminatedRegExp | unterminatedClass => exact h
  | unterminatedComment | missingToken | lookaheadOverflow | emptyPushback => exact h.elim

variable {t : Text} {fault : Fault} {site n : Nat}

theorem Numeral.quotes_of_read_eq_broken (hstarts : startsHere t = true)
    (h : read t = .broken fault site n) : fault.code.Quotes t 0 site fault.quote := by
  obtain hdecimal | ⟨marker, rest, rfl, -, -, rfl, rfl, rfl⟩ := read_eq_broken_cases h
  · obtain ⟨front, last, after, rfl, -, -, rfl, rfl, rfl⟩ :=
      exists_of_readDecimal_eq_broken hdecimal
    have hcut : front ++ last :: after = front ++ [last] ++ after := List.append_cons _ _ _
    have hlength : (front ++ [last]).length = front.length + 1 := List.length_append
    refine ⟨hstarts, ?_⟩
    rw [Text.slice_natCast, List.drop_zero, Nat.sub_zero, hcut, ← hlength, List.take_left]
    rfl
  · exact ⟨rfl, rfl⟩

/-- What a broken lexeme quotes is a piece of the text. -/
theorem Lexeme.quotes_of_read_eq_broken {operand : Bool}
    (h : read operand t = .broken fault site n) : fault.code.Quotes t 0 site fault.quote := by
  cases t with
  | nil => cases h
  | cons u rest =>
    simp only [read] at h
    split at h
    · cases h
    · split at h
      · next hnumber => exact Numeral.quotes_of_read_eq_broken hnumber h
      · split at h
        · obtain ⟨rfl, -⟩ := StringLiteral.leftOpen_of_readBody_eq_broken h
          rfl
        · split at h
          · rw [RegExpLiteral.read_cons] at h
            split at h
            · cases h
            · next hbody =>
              cases h
              obtain ⟨⟨inClass, rfl⟩, -⟩ := RegExpLiteral.leftOpen_of_readBody_eq_broken hbody
              cases inClass <;> rfl
          · unfold readMark at h
            split at h
            · cases h
            · split at h
              · cases h
              · cases h
                have hcharacter :
                    Text.CharacterAt (u :: rest) 0 (Text.firstCharacter (u :: rest)) :=
                  Text.characterAt_firstCharacter rfl
                exact ⟨_, hcharacter, hcharacter.quotes_quoted⟩

/-- What a diagnostic quotes that a scan from the cursor fails with.  In front of a comment that is
not closed there is no lexeme, and the diagnostic quotes nothing. -/
inductive Cursor.Quotes {source : Source} (c : Cursor source) (flags : Flags) (d : Diagnostic) :
    Text → Prop
  | comment (code_eq : d.code = .unterminatedComment) : Quotes c flags d []
  | lexeme {comments : List Text} {gap offset : Nat} {quote : Text}
      (trivia : Trivia.read flags.newlines c.rest = .found comments gap)
      (offset_eq : d.location.offset = offset)
      (quotes : d.code.Quotes source.text (c.offset + gap) offset quote) : Quotes c flags d quote

theorem Cursor.quotes_of_next_eq_error {source : Source} {c c' : Cursor source} {flags : Flags}
    {m : LocatedFault} (h : c.next flags = (.error m, c')) (filename : Text) :
    c.Quotes flags (m.diagnose filename) m.fault.quote := by
  obtain ⟨site, n, hbroken, -, -⟩ | ⟨comments, gap, site, n, htrivia, hbroken, hlocation, -⟩ :=
    exists_of_next_eq_error h
  · obtain ⟨-, -, -, -, -, -, hfault, -, -⟩ := Trivia.isGap_of_readFrom_eq_broken hbroken
    rw [hfault]
    refine .comment ?_
    show m.fault.code = .unterminatedComment
    rw [hfault]
    rfl
  · obtain ⟨hgap, -, -, hstop⟩ := Trivia.isGap_of_read_eq_found htrivia
    have hblank : ∀ u ∈ (c.rest.drop gap).head?, u ∉ Trivia.inlineBlanks :=
      fun u hu hspace => hstop u hu (.inl hspace)
    obtain ⟨hsite, hn, -⟩ := (Lexeme.stopsAt_of_read_eq_broken hblank hbroken).bounds
    have hoffset : ((c.advanceBy gap).advanceBy site).offset = c.offset + gap + site := by
      rw [advanceBy_offset, advanceBy_offset, advanceBy_rest, Nat.min_eq_left hgap,
        Nat.min_eq_left (Nat.le_trans hsite hn)]
    have hquotes := Lexeme.quotes_of_read_eq_broken hbroken
    rw [c.rest_eq, List.drop_drop] at hquotes
    refine .lexeme htrivia ?_ hquotes.of_drop
    rw [← hoffset]
    exact congrArg Location.offset hlocation

end ScriptScanner
