import ScriptScanner.Proofs.Lexeme.Delimited
import ScriptScanner.Proofs.Lexeme.StringEnd
set_option autoImplicit false

/-!
# What a string means

The text between two quotes is a sequence of pieces: plain units, which mean themselves, and
escapes.  Where an escape ends may depend on what follows it, so a piece is one in front of a text:
an octal escape with room for another digit stands before no octal digit, a carriage return that is
left out before no line feed, and a letter means itself only where its hexadecimal digits are
missing.  A string of pieces is read as one token, and its value is what the pieces mean, one after
the other.  So a text can be written as a string in either kind of quotes, and is read back.
-/

namespace ScriptScanner

/-! ## Escapes -/

namespace Escape

/-- The letters that denote control characters, each with its character. -/
def controls : List (CodeUnit × CodeUnit) :=
  [(CodeUnit.ofChar 'n', CodeUnit.lineFeed), (CodeUnit.ofChar 'r', CodeUnit.carriageReturn),
    (CodeUnit.ofChar 't', CodeUnit.tab), (CodeUnit.ofChar 'b', CodeUnit.backspace),
    (CodeUnit.ofChar 'f', CodeUnit.formFeed), (CodeUnit.ofChar 'v', CodeUnit.verticalTab)]

/-- The letters of hexadecimal escapes, each with the number of digits that belong to it. -/
def hexLetters : List (CodeUnit × Nat) := [(CodeUnit.ofChar 'x', 2), (CodeUnit.ofChar 'u', 4)]

/-- The letters that mean something else than themselves. -/
def letters : List CodeUnit := controls.map Prod.fst ++ hexLetters.map Prod.fst

/-- How many digits an octal escape may have after its first one. -/
def octalRoom (first : CodeUnit) : Nat := if first ≤ CodeUnit.ofChar '3' then 2 else 1

/-- Behind a backslash and in front of `following`, the text is an escape with the meaning. -/
inductive Means (following : Text) : (text meaning : Text) → Prop where
  | control {letter u : CodeUnit} (h : (letter, u) ∈ controls) : Means following [letter] [u]
  | hexadecimal {letter u : CodeUnit} {count : Nat} {digits : Text}
      (hletter : (letter, count) ∈ hexLetters) (hcount : digits.length = count)
      (hdigits : Spells 16 digits u.toNat) : Means following (letter :: digits) [u]
  | letterAlone {letter : CodeUnit} {count : Nat} (hletter : (letter, count) ∈ hexLetters)
      (hshort : ∀ digits, digits <+: following → digits.length = count →
        ∃ u ∈ digits, CharClass.hexDigit.has u = false) :
      Means following [letter] [letter]
  | octal {first u : CodeUnit} {more : Text} (hdigits : Spells 8 (first :: more) u.toNat)
      (hroom : more.length ≤ octalRoom first)
      (hstop : more.length < octalRoom first →
        ∀ v ∈ following.head?, CharClass.octalDigit.has v = false) :
      Means following (first :: more) [u]
  | lineFeed : Means following [CodeUnit.lineFeed] []
  | carriageReturnLineFeed :
      Means following [CodeUnit.carriageReturn, CodeUnit.lineFeed] []
  | carriageReturn (hstop : following.head? ≠ some CodeUnit.lineFeed) :
      Means following [CodeUnit.carriageReturn] []
  | other {u : CodeUnit} (hletter : u ∉ letters) (hoctal : CharClass.octalDigit.has u = false)
      (hfeed : u ≠ CodeUnit.lineFeed) (hreturn : u ≠ CodeUnit.carriageReturn) :
      Means following [u] [u]

theorem read_control {letter u : CodeUnit} (h : (letter, u) ∈ controls) (t : Text) :
    read (letter :: t) = ([u], 1) := by
  simp only [controls, List.mem_cons, Prod.mk.injEq, List.not_mem_nil, or_false] at h
  rcases h with ⟨rfl, rfl⟩ | ⟨rfl, rfl⟩ | ⟨rfl, rfl⟩ | ⟨rfl, rfl⟩ | ⟨rfl, rfl⟩ | ⟨rfl, rfl⟩ <;> rfl

/-- Behind the letter of a hexadecimal escape, so many digits are looked for. -/
theorem read_hexLetter {letter : CodeUnit} {count : Nat} (h : (letter, count) ∈ hexLetters)
    (t : Text) :
    read (letter :: t) =
      if (t.take count).length = count && (t.take count).all CharClass.hexDigit.has then
        ([UInt16.ofNat (positional 16 (t.take count))], count + 1)
      else ([letter], 1) := by
  simp only [hexLetters, List.mem_cons, Prod.mk.injEq, List.not_mem_nil, or_false] at h
  rcases h with ⟨rfl, rfl⟩ | ⟨rfl, rfl⟩ <;> rfl

theorem mem_controls_of_control? {letter u : CodeUnit} (h : control? letter = some u) :
    (letter, u) ∈ controls := by
  unfold control? at h
  split_ifs at h with hletter hletter hletter hletter hletter hletter <;>
    cases h <;> subst hletter <;> decide

theorem mem_hexLetters_of_hexDigits? {letter : CodeUnit} {count : Nat}
    (h : hexDigits? letter = some count) : (letter, count) ∈ hexLetters := by
  unfold hexDigits? at h
  split_ifs at h with hletter hletter <;> cases h <;> subst hletter <;> decide

/-- A unit that is no letter of an escape is a line break, an octal digit or itself. -/
theorem read_of_not_mem_letters {u : CodeUnit} (hu : u ∉ letters) (t : Text) :
    read (u :: t) =
      if u = CodeUnit.lineFeed then ([], 1)
      else if u = CodeUnit.carriageReturn then
        ([], if t.head? = some CodeUnit.lineFeed then 2 else 1)
      else if CharClass.octalDigit.has u then
        ([UInt16.ofNat (positional 8 (octalDigits u t))], (octalDigits u t).length)
      else ([u], 1) := by
  rw [letters, List.mem_append, not_or] at hu
  have hnone : control? u = none := Option.eq_none_iff_forall_ne_some.mpr fun c h =>
    hu.1 (List.mem_map_of_mem (mem_controls_of_control? h))
  have hplain : hexDigits? u = none := Option.eq_none_iff_forall_ne_some.mpr fun n h =>
    hu.2 (List.mem_map_of_mem (mem_hexLetters_of_hexDigits? h))
  simp only [read, hnone, hplain]

/-- An octal escape takes its own digits, if it has no room for more or none follows. -/
theorem octalDigits_append {first : CodeUnit} {more following : Text}
    (hdigits : ∀ u ∈ more, CharClass.octalDigit.has u = true)
    (hroom : more.length ≤ octalRoom first)
    (hstop : more.length < octalRoom first →
      ∀ v ∈ following.head?, CharClass.octalDigit.has v = false) :
    octalDigits first (more ++ following) = first :: more := by
  obtain ⟨k, hk⟩ := Nat.exists_eq_add_of_le hroom
  have hnext : (following.take k).takeWhile CharClass.octalDigit.has = [] := by
    cases following with
    | nil => rw [List.take_nil, List.takeWhile_nil]
    | cons v after =>
      cases k with
      | zero => rfl
      | succ k =>
        have hv := hstop (by omega) v rfl
        rw [List.take_succ_cons, List.takeWhile_cons, hv]
        rfl
  have htake : (more ++ following).take (octalRoom first) = more ++ following.take k := by
    rw [hk, List.take_length_add_append]
  show first :: ((more ++ following).take (octalRoom first)).takeWhile _ = first :: more
  rw [htake, List.takeWhile_append_of_pos hdigits, hnext, List.append_nil]

/-- An escape is read up to its end, and it is read as what it means. -/
theorem Means.read_append {following text meaning : Text} (h : Means following text meaning) :
    read (text ++ following) = (meaning, text.length) := by
  cases h with
  | control h => exact read_control h following
  | @hexadecimal letter u count digits hletter hcount hdigits =>
    have htake : (digits ++ following).take count = digits := by
      rw [← hcount, List.take_left]
    have hall : (digits.length = count && digits.all CharClass.hexDigit.has) = true := by
      rw [Bool.and_eq_true, decide_eq_true_eq, List.all_eq_true]
      exact ⟨hcount, hdigits.forall_hexDigit⟩
    rw [List.cons_append, read_hexLetter hletter, htake, if_pos hall, hdigits.positional_eq,
      UInt16.ofNat_toNat, List.length_cons, hcount]
  | letterAlone hletter hshort =>
    rw [List.singleton_append, read_hexLetter hletter, if_neg, List.length_singleton]
    intro hall
    rw [Bool.and_eq_true, decide_eq_true_eq, List.all_eq_true] at hall
    obtain ⟨u, hu, hplain⟩ := hshort _ (List.take_prefix _ _) hall.1
    rw [hall.2 u hu] at hplain
    cases hplain
  | @octal first u more hdigits hroom hstop =>
    have hfirst := hdigits.forall_octalDigit first List.mem_cons_self
    have hmore : ∀ v ∈ more, CharClass.octalDigit.has v = true :=
      fun v hv => hdigits.forall_octalDigit v (List.mem_cons_of_mem _ hv)
    -- the digit is none of the units that are looked for before it
    have hother : ∀ v, CharClass.octalDigit.has v = false → first ≠ v := by
      rintro v hv rfl
      rw [hfirst] at hv
      cases hv
    have hletters : (letters.all fun v => !CharClass.octalDigit.has v) = true := by decide
    have hmem : first ∉ letters := by
      intro h
      have hplain := List.all_eq_true.mp hletters first h
      rw [hfirst] at hplain
      cases hplain
    rw [List.cons_append, read_of_not_mem_letters hmem, if_neg (hother _ (by decide)),
      if_neg (hother _ (by decide)), if_pos hfirst, octalDigits_append hmore hroom hstop,
      hdigits.positional_eq, UInt16.ofNat_toNat]
  | lineFeed => rfl
  | carriageReturnLineFeed => rfl
  | carriageReturn hstop =>
    rw [List.singleton_append, read_of_not_mem_letters (by decide), if_neg (by decide),
      if_pos rfl, if_neg hstop, List.length_singleton]
  | other hletter hoctal hfeed hreturn =>
    rw [List.singleton_append, read_of_not_mem_letters hletter, if_neg hfeed, if_neg hreturn,
      hoctal, if_neg Bool.false_ne_true, List.length_singleton]

/-- An escape is not empty. -/
theorem Means.ne_nil {following text meaning : Text} (h : Means following text meaning) :
    text ≠ [] := by
  cases h <;> exact List.cons_ne_nil _ _

end Escape

/-! ## Pieces -/

namespace StringLiteral

/-- In front of `following`, the text is a piece of a string with the meaning. -/
inductive Piece (quote : Quote) (following : Text) : (text meaning : Text) → Prop where
  | plain {u : CodeUnit} (hquote : u ≠ quote.unit) (hslash : u ≠ CodeUnit.backslash)
      (hfeed : u ≠ CodeUnit.lineFeed) : Piece quote following [u] [u]
  | escape {text meaning : Text} (h : Escape.Means following text meaning) :
      Piece quote following (CodeUnit.backslash :: text) meaning

/-- The text is a sequence of pieces, the last of them in front of the closing quote, and they mean
the value together. -/
inductive Body (quote : Quote) : (text value : Text) → Prop where
  | nil : Body quote [] []
  | cons {piece meaning text value : Text}
      (hpiece : Piece quote (text ++ [quote.unit]) piece meaning) (htext : Body quote text value) :
      Body quote (piece ++ text) (meaning ++ value)

variable {quote : Quote}

/-- The text of a string that denotes a value: the quote, the backslash and the line feed are
escaped, and everything else stands for itself. -/
def escaped (quote : Quote) (value : Text) : Text :=
  value.flatMap fun u =>
    if u = quote.unit ∨ u = CodeUnit.backslash then [CodeUnit.backslash, u]
    else if u = CodeUnit.lineFeed then [CodeUnit.backslash, CodeUnit.ofChar 'n']
    else [u]

/-- A quote or a backslash behind a backslash is itself. -/
theorem means_self {u : CodeUnit} (hu : u = quote.unit ∨ u = CodeUnit.backslash)
    (following : Text) : Escape.Means following [u] [u] := by
  rcases hu with rfl | rfl
  · cases quote
    · exact .other (by decide) (by decide) (by decide) (by decide)
    · exact .other (by decide) (by decide) (by decide) (by decide)
  · exact .other (by decide) (by decide) (by decide) (by decide)

theorem body_escaped (value : Text) : Body quote (escaped quote value) value := by
  induction value with
  | nil => exact .nil
  | cons u value ih =>
    rw [escaped, List.flatMap_cons]
    show Body quote (_ ++ escaped quote value) ([u] ++ value)
    refine .cons ?_ ih
    split
    · next hself => exact .escape (means_self hself _)
    · next h =>
      obtain ⟨hquote, hslash⟩ := not_or.mp h
      split
      · next hfeed =>
        rw [hfeed]
        exact .escape (.control (by decide))
      · next hfeed => exact .plain hquote hslash hfeed

/-- A piece is read as what it means, and reading goes on behind it. -/
theorem readBody_of_piece {following piece meaning : Text}
    (h : Piece quote following piece meaning) (decoded : Text) (passed : Nat) :
    readBody quote.unit decoded passed (piece ++ following) =
      readBody quote.unit (meaning.reverse ++ decoded) (passed + piece.length) following := by
  cases h with
  | plain hquote hslash hfeed =>
    rw [List.singleton_append, readBody, if_neg hfeed, if_neg hquote, if_neg hslash]
    rfl
  | @escape text meaning h =>
    have hne : text ++ following ≠ [] := List.append_ne_nil_of_left_ne_nil h.ne_nil _
    rw [List.cons_append, readBody_of_escape quote.unit_ne_backslash.symm hne h.read_append,
      List.drop_left, List.length_cons, Nat.add_assoc, Nat.add_comm 1]

/-- A sequence of pieces is read as what they mean together. -/
theorem readBody_of_body {text value : Text} (h : Body quote text value) (decoded : Text)
    (passed : Nat) :
    readBody quote.unit decoded passed (text ++ [quote.unit]) =
      .found (lexeme quote.unit (decoded.reverse ++ value)) (passed + text.length + 1) := by
  induction h generalizing decoded passed with
  | nil =>
    rw [List.nil_append, readBody, if_neg quote.unit_ne_lineFeed, if_pos rfl, List.append_nil]
    rfl
  | cons hpiece _ ih =>
    rw [List.append_assoc, readBody_of_piece hpiece, ih, List.reverse_append, List.reverse_reverse,
      List.append_assoc, List.length_append, Nat.add_assoc passed]

/-- A string of pieces is read up to its closing quote, whatever comes after that. -/
theorem read_of_body {text value : Text} (h : Body quote text value) (after : Text) :
    read (quote.unit :: (text ++ quote.unit :: after)) =
      .found (lexeme quote.unit value) (text.length + 2) := by
  obtain ⟨body, beyond, hcut, hlength, hbody⟩ :=
    exists_of_readBody quote.hexDigit_unit quote.octalDigit_unit (readBody_of_body h [] 1)
  obtain ⟨rfl, -⟩ : text = body ∧ [quote.unit] = quote.unit :: beyond :=
    List.append_inj hcut (by omega)
  rw [read, hbody after, List.reverse_nil, List.nil_append, Nat.add_comm 1]

/-- No trivia begin with a quote. -/
theorem read_trivia_quote (newlines : Bool) (quote : Quote) (rest : Text) :
    Trivia.read newlines (quote.unit :: rest) = .found [] 0 := by
  have hslash : quote.unit ≠ CodeUnit.slash := by cases quote <;> decide
  have hblank : quote.unit ∉ CodeUnit.lineFeed :: Trivia.inlineBlanks := by
    cases quote <;> decide
  exact Trivia.read_of_stop hslash hblank newlines rest

theorem read_lexeme_quote (operand : Bool) (quote : Quote) (rest : Text) :
    Lexeme.read operand (quote.unit :: rest) = read (quote.unit :: rest) := by
  cases quote <;> rfl

end StringLiteral

/-! ## Tokens -/

namespace Cursor

open StringLiteral

variable {source : Source} {c : Cursor source} {quote : Quote}

/-- At a quote, a scan reads a string. -/
theorem next_of_quote {rest : Text} (h : c.rest = quote.unit :: rest) (flags : Flags) :
    c.next flags = c.token (StringLiteral.read c.rest) := by
  have htrivia : c.skipTrivia flags.newlines = (.ok [], c) := by
    rw [skipTrivia, h, read_trivia_quote, Cursor.read, advanceBy_zero]
  rw [next, htrivia]
  simp only [h, read_lexeme_quote]
  rcases c.token (StringLiteral.read (quote.unit :: rest)) with ⟨m | t, c'⟩
  · rfl
  · rfl

/-- A string of pieces is scanned as one token, whatever comes after it. -/
theorem next_of_body {text value after : Text} (h : Body quote text value)
    (hrest : c.rest = quote.unit :: (text ++ quote.unit :: after)) (flags : Flags) :
    c.next flags =
      (.ok (c.stringToken quote value text.length), c.advanceBy (text.length + 2)) := by
  have hlength : text.length + 2 ≤ c.rest.length := by
    rw [hrest, List.length_cons, List.length_append, List.length_cons]
    omega
  rw [next_of_quote hrest, token_of_string _ hlength]
  rw [hrest, read_of_body h]

/-- Where a string of pieces stands, in either kind of quotes and before any text, a scan takes the
whole string and finds what the pieces mean.  In particular every value is read back from its
escaped text. -/
theorem next_of_pieces {source : Source} (c : Cursor source) (flags : Flags) (quote : Quote) :
    (∀ text value after, Body quote text value →
      c.rest = quote.unit :: (text ++ quote.unit :: after) →
        c.next flags =
          (.ok (c.stringToken quote value text.length), c.advanceBy (text.length + 2))) ∧
      ∀ value after, c.rest = quote.unit :: (escaped quote value ++ quote.unit :: after) →
        c.next flags =
          (.ok (c.stringToken quote value (escaped quote value).length),
            c.advanceBy ((escaped quote value).length + 2)) :=
  ⟨fun _ _ _ hbody hrest => next_of_body hbody hrest flags,
    fun value _ hrest => next_of_body (body_escaped value) hrest flags⟩

/-- A string in which pieces end because of what follows them, before a name: an octal escape before
another digit, a carriage return that is left out, and an escape that lacks digits. -/
def crowdedPieces : Source := ⟨"'\\1018\\\r\"\\xE9\\u12'b", by decide +kernel⟩

theorem next_of_pieces_crowdedPieces :
    (start crowdedPieces).next ⟨true, false⟩ =
      (.ok ((start crowdedPieces).stringToken .single "A8\"éu12" 16),
        (start crowdedPieces).advanceBy 18) := by
  have hoctal : Spells 8 [0x31, 0x30, 0x31] (0x41 : CodeUnit).toNat := .of_all (by decide)
  have hhex : Spells 16 [0x45, 0x39] (0xE9 : CodeUnit).toNat := .of_all (by decide)
  have hbody : Body .single
      ([CodeUnit.backslash, 0x31, 0x30, 0x31] ++ ([0x38] ++
        ([CodeUnit.backslash, CodeUnit.carriageReturn] ++ ([CodeUnit.doubleQuote] ++
          ([CodeUnit.backslash, 0x78, 0x45, 0x39] ++
            ([CodeUnit.backslash, 0x75] ++ ([0x31] ++ ([0x32] ++ []))))))))
      ([0x41] ++ ([0x38] ++ ([] ++ ([CodeUnit.doubleQuote] ++ ([0xE9] ++
        ([0x75] ++ ([0x31] ++ ([0x32] ++ [])))))))) := by
    refine .cons (.escape (.octal hoctal (by decide) fun hmore => absurd hmore (by decide))) ?_
    refine .cons (.plain (by decide) (by decide) (by decide)) ?_
    refine .cons (.escape (.carriageReturn (by decide))) ?_
    refine .cons (.plain (by decide) (by decide) (by decide)) ?_
    refine .cons (.escape (.hexadecimal (by decide) rfl hhex)) ?_
    have hletter : ((0x75 : CodeUnit), 4) ∈ Escape.hexLetters := by decide
    refine .cons (.escape (.letterAlone hletter fun digits hdigits hcount => ?_)) ?_
    · exact absurd hdigits.length_le (hcount ▸ by decide)
    refine .cons (.plain (by decide) (by decide) (by decide)) ?_
    exact .cons (.plain (by decide) (by decide) (by decide)) .nil
  have hrest : (start crowdedPieces).rest = Quote.single.unit ::
      (Text.ofString "\\1018\\\r\"\\xE9\\u12" ++ Quote.single.unit :: Text.ofString "b") := by
    decide +kernel
  exact (next_of_pieces (start crowdedPieces) ⟨true, false⟩ .single).1 _ _ _ hbody hrest

end Cursor

end ScriptScanner
