import ScriptScanner.Proofs.Lexeme.Longest
import ScriptScanner.Proofs.Lexeme.StringEnd
import ScriptScanner.Proofs.Tokenization.Respelling
set_option autoImplicit false

/-!
# What a token says of its raw text

Every reader makes the content of its lexeme in a way of its own: a word is cut out of the source,
an operator comes from a table, the body of a regular expression is kept without its slashes.  All
of them fit the text that the token covers, so that this text can be told from the fields of the
token, unless it is a number or a string, which have many ways of writing one value.
-/

namespace ScriptScanner

/-! ## How lexemes are written -/

namespace Lexeme

/-- The text `x`, with the text `after` behind it, is written as a lexeme of its kind is. -/
inductive Written (after : Text) : Text → Lexeme → Prop where
  | word {u : CodeUnit} {y : Text} (start : CharClass.nameStart.has u = true)
      (continues : ∀ v ∈ y, CharClass.nameContinue.has v = true)
      (stops : ∀ v ∈ after.head?, CharClass.nameContinue.has v = false) :
      Written after (u :: y) (Word.lexeme (u :: y))
  | number {u : CodeUnit} {y : Text} (m : Numeral)
      (start : CharClass.digit.has u = true ∨ u = CodeUnit.dot) :
      Written after (u :: y) m.lexeme
  | string (quote : StringLiteral.Quote) (value y : Text) :
      Written after (quote.unit :: (y ++ [quote.unit])) (StringLiteral.lexeme quote.unit value)
  | regExp (body flags : Text) :
      Written after (CodeUnit.slash :: (body ++ CodeUnit.slash :: flags))
        (RegExpLiteral.lexeme body flags)
  | mark {x : Text} {l : Lexeme} (writes : Punctuation.Writes x l) : Written after x l
  | newline : Written after [CodeUnit.lineFeed] Lexeme.newline
  | endOfSource : Written after [] Lexeme.endOfSource

/-- A reading of the text finds the lexeme, written as one of its kind at the front of the text. -/
def FindsWritten (t : Text) (l : Lexeme) (n : Nat) : Prop :=
  ∃ x after, t = x ++ after ∧ n = x.length ∧ Written after x l

variable {t rest : Text} {u : CodeUnit} {l : Lexeme} {n : Nat}

theorem findsWritten_word (hu : CharClass.nameStart.has u = true)
    (h : Word.read (u :: rest) = .found l n) : FindsWritten (u :: rest) l n := by
  cases h
  have hcontinue : CharClass.nameContinue.has u = true := by
    rw [CharClass.nameContinue, CharClass.has_union, hu, Bool.true_or]
  refine ⟨(u :: rest).takeWhile CharClass.nameContinue.has,
    (u :: rest).dropWhile CharClass.nameContinue.has, List.takeWhile_append_dropWhile.symm, rfl, ?_⟩
  rw [List.takeWhile_cons_of_pos hcontinue]
  refine .word hu (fun v hv => List.mem_takeWhile_imp hv) ?_
  intro v hv
  rw [← Bool.not_eq_true]
  exact Trivia.not_of_mem_head?_dropWhile _ _ hv

theorem findsWritten_number (hstart : Numeral.startsHere t = true)
    (h : Numeral.read t = .found l n) : FindsWritten t l n := by
  have hpos := Numeral.pos_of_read_eq_found hstart h
  obtain ⟨x, after, rfl, rfl, -⟩ := Numeral.exists_finds hstart h
  obtain ⟨u, y, rfl⟩ := List.exists_cons_of_ne_nil (List.length_pos_iff.mp hpos)
  refine ⟨u :: y, after, rfl, rfl, ?_⟩
  have hfirst : CharClass.digit.has u = true ∨ u = CodeUnit.dot := by
    rw [List.cons_append, Numeral.startsHere, Bool.or_eq_true, Bool.and_eq_true,
      decide_eq_true_eq] at hstart
    exact hstart.imp_right And.left
  unfold Numeral.read Reading.map at h
  split at h
  · cases h
    exact .number _ hfirst
  · cases h

theorem findsWritten_string (quote : StringLiteral.Quote)
    (h : StringLiteral.read (quote.unit :: rest) = .found l n) :
    FindsWritten (quote.unit :: rest) l n := by
  obtain ⟨value, rfl⟩ := StringLiteral.exists_value_of_readBody h
  obtain ⟨body, after, rfl, rfl, -⟩ :=
    StringLiteral.exists_of_readBody quote.hexDigit_unit quote.octalDigit_unit h
  refine ⟨quote.unit :: (body ++ [quote.unit]), after, ?_, ?_, .string quote value body⟩
  · rw [List.cons_append, List.append_assoc, List.singleton_append]
  · rw [List.length_cons, List.length_append, List.length_singleton, Nat.add_comm 1]

theorem findsWritten_regExp (h : RegExpLiteral.read (CodeUnit.slash :: rest) = .found l n) :
    FindsWritten (CodeUnit.slash :: rest) l n := by
  rcases hbody : RegExpLiteral.readBody false 1 rest with ⟨k, closed⟩ | ⟨fault, site, m⟩
  · obtain ⟨body, beyond, rfl, hclosed, hk, -⟩ := RegExpLiteral.endsAtSlash_of_readBody hbody
    rw [RegExpLiteral.read_of_readBody hbody hk hclosed] at h
    cases h
    refine ⟨_, beyond.dropWhile CharClass.regExpFlag.has, ?_, rfl, .regExp body _⟩
    rw [List.cons_append, List.append_assoc, List.cons_append, List.takeWhile_append_dropWhile]
  · rw [RegExpLiteral.read_cons, hbody] at h
    cases h

theorem findsWritten_mark (h : readMark t = .found l n) : FindsWritten t l n := by
  unfold readMark at h
  rcases Punctuation.read?_cases t with ⟨hnone, -⟩ | ⟨x, l', hsome, hwrites, hlongest⟩
  · rw [hnone] at h
    simp only at h
    split at h
    · next hhead =>
      cases h
      obtain ⟨after, rfl⟩ := List.head?_eq_some_iff.mp hhead
      exact ⟨[CodeUnit.lineFeed], after, rfl, rfl, .newline⟩
    · cases h
  · rw [hsome] at h
    cases h
    obtain ⟨after, rfl⟩ := hlongest.isFront
    exact ⟨x, after, rfl, rfl, .mark hwrites⟩

/-- Whatever is read is written as a lexeme of its kind. -/
theorem findsWritten_of_read {operand : Bool} (h : read operand t = .found l n) :
    FindsWritten t l n := by
  cases t with
  | nil =>
    cases h
    exact ⟨[], [], rfl, rfl, .endOfSource⟩
  | cons u rest =>
    simp only [read] at h
    split at h
    · next hname => exact findsWritten_word hname h
    · split at h
      · next hnumber => exact findsWritten_number hnumber h
      · split at h
        · next hquote =>
          rw [Bool.or_eq_true, decide_eq_true_eq, decide_eq_true_eq] at hquote
          obtain rfl | rfl := hquote
          · exact findsWritten_string .double h
          · exact findsWritten_string .single h
        · split at h
          · next hslash =>
            rw [Bool.and_eq_true, decide_eq_true_eq] at hslash
            obtain ⟨rfl, -⟩ := hslash
            exact findsWritten_regExp h
          · exact findsWritten_mark h

end Lexeme

/-! ## Compound assignments -/

/-- The units that begin a number, a string or a line break, digits apart. -/
def CodeUnit.openers : List CodeUnit :=
  [CodeUnit.dot, CodeUnit.singleQuote, CodeUnit.doubleQuote, CodeUnit.lineFeed]

/-- No word, number, string or line break begins like a compound assignment, and no regular
expression has its closing slash there. -/
theorem Operator.of_compoundSpelling_eq_cons {o : Operator} (ho : o.compounds = true)
    {u : CodeUnit} {y : Text} (h : u :: y = o.compoundSpelling) :
    CharClass.nameStart.has u = false ∧ CharClass.digit.has u = false ∧ u ∉ CodeUnit.openers ∧
      CodeUnit.slash ∉ y := by
  have hall : ∀ o ∈ all, o.compounds = true → (o.compoundSpelling.head?.all fun u =>
      !CharClass.nameStart.has u && !CharClass.digit.has u && !decide (u ∈ CodeUnit.openers)) ∧
        CodeUnit.slash ∉ o.compoundSpelling.tail := by
    decide
  obtain ⟨hfirst, htail⟩ := hall o o.mem_all ho
  rw [← h] at hfirst htail
  simp only [List.head?_cons, Option.all_some, Bool.and_eq_true, Bool.not_eq_true',
    decide_eq_false_iff_not] at hfirst
  exact ⟨hfirst.1.1, hfirst.1.2, hfirst.2, htail⟩

/-- The type of a word is the word itself if it is a keyword, and else that of identifiers. -/
theorem TokenKind.name_ofWord (word : Text) :
    (ofWord word).name =
      if word ∈ Keyword.all.map Keyword.spelling then word else identifier.name := by
  unfold ofWord
  split
  · next k hk =>
    obtain rfl := Keyword.ofSpelling?_eq_some_iff.mp hk
    rw [if_pos (List.mem_map_of_mem k.mem_all)]
    rfl
  · next hnone =>
    rw [if_neg]
    intro hword
    obtain ⟨k, -, hk⟩ := List.mem_map.mp hword
    rw [Keyword.ofSpelling?_eq_some_iff.mpr hk.symm] at hnone
    cases hnone

namespace Lexeme

/-! ## What the fields say -/

/-- What the fields of a lexeme say of the text `x` that it covers, by its kind; `behind` is the
unit behind that text, if there is one. -/
def FitsKind (l : Lexeme) (x : Text) (behind : Option CodeUnit) : TokenKind → Prop
  | .identifier | .keyword _ =>
      l.content = .text x ∧
        (∃ u y, x = u :: y ∧ CharClass.nameStart.has u = true ∧
          ∀ v ∈ y, CharClass.nameContinue.has v = true) ∧
        (∀ v ∈ behind, CharClass.nameContinue.has v = false) ∧
        l.kind.name =
          if x ∈ Keyword.all.map Keyword.spelling then x else TokenKind.identifier.name
  | .operator _ | .newline => l.content = .text x
  | .regExp =>
      ∃ body, l.content = .text body ∧
        x = CodeUnit.slash :: (body ++ CodeUnit.slash :: l.variant)
  | .string =>
      ∃ quote : StringLiteral.Quote, l.variant = quote.name ∧
        ∃ y, x = quote.unit :: (y ++ [quote.unit])
  | .endOfSource => x = []
  | .number => True

/-- The fields of a lexeme fit the text that it covers: those of its kind, and the operator that a
compound assignment applies. -/
structure Fits (l : Lexeme) (x : Text) (behind : Option CodeUnit) : Prop where
  kind : l.FitsKind x behind l.kind
  applies_iff : l.applies ≠ none ↔ ∃ o : Operator, o.compounds = true ∧ x = o.compoundSpelling
  applies_eq : ∀ k, l.applies = some k → ∃ o : Operator, x = o.spelling ++ [CodeUnit.equals] ∧
    ∀ p : Operator, (TokenKind.operator p).name = k.name ↔ p = o

variable {after x x' : Text} {l l' : Lexeme} {behind behind' : Option CodeUnit}

/-- A lexeme that is no compound assignment applies no operator. -/
theorem Fits.of_plain (kind : l.FitsKind x behind l.kind) (hnone : l.applies = none)
    (hplain : ∀ o : Operator, o.compounds = true → x ≠ o.compoundSpelling) : l.Fits x behind where
  kind := kind
  applies_iff := by
    refine iff_of_false (not_not.mpr hnone) ?_
    rintro ⟨o, ho, hx⟩
    exact hplain o ho hx
  applies_eq k hk := by
    rw [hnone] at hk
    cases hk

theorem Fits.of_compound {o : Operator} (ho : o.compounds = true) :
    (Punctuation.compoundLexeme o).Fits o.compoundSpelling behind where
  kind := rfl
  applies_iff := iff_of_true (Option.some_ne_none _) ⟨o, ho, rfl⟩
  applies_eq k hk := by
    obtain rfl := Option.some.inj hk
    refine ⟨o, rfl, fun p => ?_⟩
    constructor
    · intro hname
      exact TokenKind.operator.inj (TokenKind.name_injective hname)
    · rintro rfl
      rfl

/-- However a lexeme is written, its fields fit. -/
theorem Written.fits (h : Written after x l) : l.Fits x after.head? := by
  cases h with
  | @word u y start continues stops =>
    refine .of_plain ?_ rfl ?_
    · have hfields : (Word.lexeme (u :: y)).FitsKind (u :: y) after.head? .identifier :=
        ⟨rfl, ⟨u, y, rfl, start, continues⟩, stops, TokenKind.name_ofWord (u :: y)⟩
      obtain hkind | ⟨w, hkind⟩ := TokenKind.ofWord_eq (u :: y)
      · change FitsKind _ _ _ (TokenKind.ofWord (u :: y))
        rwa [hkind]
      · change FitsKind _ _ _ (TokenKind.ofWord (u :: y))
        rwa [hkind]
    · intro o ho heq
      rw [(Operator.of_compoundSpelling_eq_cons ho heq).1] at start
      cases start
  | @number u y m start =>
    refine .of_plain trivial rfl ?_
    intro o ho heq
    obtain ⟨-, hdigit, hopeners, -⟩ := Operator.of_compoundSpelling_eq_cons ho heq
    rcases start with hu | rfl
    · rw [hdigit] at hu
      cases hu
    · exact hopeners (by decide)
  | string quote value y =>
    refine .of_plain ⟨quote, quote.variant_unit, y, rfl⟩ rfl ?_
    intro o ho heq
    obtain ⟨-, -, hopeners, -⟩ := Operator.of_compoundSpelling_eq_cons ho heq
    cases quote with
    | single => exact hopeners (by decide)
    | double => exact hopeners (by decide)
  | regExp body flags =>
    refine .of_plain ⟨body, rfl, rfl⟩ rfl ?_
    intro o ho heq
    obtain ⟨-, -, -, hslash⟩ := Operator.of_compoundSpelling_eq_cons ho heq
    exact hslash (List.mem_append_right body List.mem_cons_self)
  | mark writes =>
    cases writes with
    | operator o =>
      refine .of_plain rfl rfl ?_
      intro p hp heq
      exact Operator.compoundSpelling_ne hp o heq.symm
    | compound ho => exact .of_compound ho
  | newline =>
    refine .of_plain rfl rfl ?_
    intro o ho heq
    obtain ⟨-, -, hopeners, -⟩ := Operator.of_compoundSpelling_eq_cons ho heq
    exact hopeners (by decide)
  | endOfSource =>
    refine .of_plain rfl rfl ?_
    intro o ho heq
    exact List.append_ne_nil_of_right_ne_nil o.spelling (List.cons_ne_nil _ _) heq.symm

/-- The fields of a lexeme that is no string and no number determine the text that it covers. -/
theorem Fits.raw_eq (h : l.Fits x behind) (h' : l'.Fits x' behind') (hkind : l'.kind = l.kind)
    (hcontent : l'.content = l.content) (hvariant : l'.variant = l.variant)
    (hstring : l.kind ≠ .string) (hnumber : l.kind ≠ .number) : x' = x := by
  have hfits := h.kind
  have hfits' := h'.kind
  have htext : l.content = .text x → l'.content = .text x' → x' = x := by
    intro hx hx'
    rw [hcontent, hx] at hx'
    exact (Content.text.inj hx').symm
  rw [hkind] at hfits'
  cases hk : l.kind with
  | identifier | keyword =>
    rw [hk] at hfits hfits'
    exact htext hfits.1 hfits'.1
  | operator | newline =>
    rw [hk] at hfits hfits'
    exact htext hfits hfits'
  | regExp =>
    rw [hk] at hfits hfits'
    obtain ⟨body, hbody, rfl⟩ := hfits
    obtain ⟨body', hbody', rfl⟩ := hfits'
    rw [hcontent, hbody] at hbody'
    rw [Content.text.inj hbody', hvariant]
  | endOfSource =>
    rw [hk] at hfits hfits'
    exact hfits'.trans hfits.symm
  | string => exact absurd hk hstring
  | number => exact absurd hk hnumber

end Lexeme

/-! ## Tokens -/

namespace Cursor

variable {source : Source} {c c' : Cursor source} {flags : Flags} {t : Token}

/-- The fields of a token fit the text that it covers. -/
theorem fits_of_next (h : c.next flags = (.ok t, c')) :
    t.toLexeme.Fits (t.raw source) (source.text.unit? t.stop) := by
  obtain ⟨comments, gap, l, n, -, hlexeme, rfl, rfl⟩ := exists_of_next_eq_ok h
  obtain ⟨x, after, hcut, rfl, hwritten⟩ := Lexeme.findsWritten_of_read hlexeme
  have hbehind : ((c.advanceBy gap).advanceBy x.length).rest.head? = after.head? := by
    rw [advanceBy_rest, advanceBy_rest, hcut, List.drop_left]
  rw [Token.raw_tokenAt hcut, Token.withComments_toLexeme, Token.withComments_stop]
  change l.Fits x (source.text.unit? ((c.advanceBy gap).advanceBy x.length).offset)
  rw [Text.unit?_natCast, ← head?_rest, hbehind]
  exact hwritten.fits

/-- Wherever a token is scanned, and with which flags, its fields fit the text that it covers.  So
two tokens of one kind, with one content and one variant, cover the same text, if they are no
strings and no numbers. -/
theorem raw_of_next (h : c.next flags = (.ok t, c')) :
    t.toLexeme.Fits (t.raw source) (source.text.unit? t.stop) ∧
      ∀ (source' : Source) (d d' : Cursor source') (flags' : Flags) (t' : Token),
        d.next flags' = (.ok t', d') → t'.kind = t.kind → t'.content = t.content →
          t'.variant = t.variant → t.kind ≠ .string → t.kind ≠ .number →
            t'.raw source' = t.raw source := by
  refine ⟨fits_of_next h, ?_⟩
  intro source' d d' flags' t' h' hkind hcontent hvariant hstring hnumber
  exact (fits_of_next h).raw_eq (fits_of_next h') hkind hcontent hvariant hstring hnumber

/-- A regular expression, or a division assignment and what follows it. -/
def slashEquals : Source := ⟨"/=/g", by decide +kernel⟩

/-- A division assignment between names. -/
def divided : Source := ⟨"a /= b", by decide +kernel⟩

/-- Both sources have a division assignment, and it covers the same text in both. -/
theorem raw_of_next_slashEquals :
    (start slashEquals).next ⟨false, false⟩ =
        (.ok ((Punctuation.compoundLexeme .divide).tokenAt ⟨⟨1, 1⟩, 0⟩ 2),
          (start slashEquals).advanceBy 2) ∧
      ((start divided).advanceBy 1).next ⟨false, false⟩ =
        (.ok ((Punctuation.compoundLexeme .divide).tokenAt ⟨⟨1, 3⟩, 2⟩ 4),
          (start divided).advanceBy 4) ∧
      ((Punctuation.compoundLexeme .divide).tokenAt ⟨⟨1, 3⟩, 2⟩ 4).raw divided =
        ((Punctuation.compoundLexeme .divide).tokenAt ⟨⟨1, 1⟩, 0⟩ 2).raw slashEquals ∧
      ∃ o : Operator, o.compounds = true ∧
        ((Punctuation.compoundLexeme .divide).tokenAt ⟨⟨1, 1⟩, 0⟩ 2).raw slashEquals =
          o.compoundSpelling := by
  have hfirst : (start slashEquals).next ⟨false, false⟩ =
      (.ok ((Punctuation.compoundLexeme .divide).tokenAt ⟨⟨1, 1⟩, 0⟩ 2),
        (start slashEquals).advanceBy 2) := by decide +kernel
  have hsecond : ((start divided).advanceBy 1).next ⟨false, false⟩ =
      (.ok ((Punctuation.compoundLexeme .divide).tokenAt ⟨⟨1, 3⟩, 2⟩ 4),
        (start divided).advanceBy 4) := by decide +kernel
  obtain ⟨hfits, hraw⟩ := raw_of_next hfirst
  have hsame := hraw divided _ _ _ _ hsecond rfl rfl rfl TokenKind.noConfusion
    TokenKind.noConfusion
  exact ⟨hfirst, hsecond, hsame, hfits.applies_iff.mp (Option.some_ne_none _)⟩

end Cursor

end ScriptScanner
