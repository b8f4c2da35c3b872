import ScriptScanner.Diagnostic
import ScriptScanner.Scan
import ScriptScanner.Proofs.Place
import ScriptScanner.Proofs.Trivia
set_option autoImplicit false

/-!
# What a scan does

A scan of one token reads trivia and then a lexeme, and both readings are about the text ahead.
Here the two are put together once: where the scan stops, where it reports a fault, and which range
the token gets.  A scan always moves by `advanceBy`, so it keeps a cursor in place.
-/

namespace ScriptScanner

namespace Token

variable (t : Token) (comments : List Text)

theorem withComments_toLexeme : (t.withComments comments).toLexeme = t.toLexeme := by
  rw [withComments]
  split <;> rfl

@[simp] theorem withComments_kind : (t.withComments comments).kind = t.kind := by
  rw [withComments]
  split <;> rfl

@[simp] theorem withComments_start : (t.withComments comments).start = t.start := by
  rw [withComments]
  split <;> rfl

@[simp] theorem withComments_stop : (t.withComments comments).stop = t.stop := by
  rw [withComments]
  split <;> rfl

@[simp] theorem withComments_location : (t.withComments comments).location = t.location := by
  rw [withComments]
  split <;> rfl

/-- A token without comments gets exactly the given ones. -/
theorem withComments_comments (h : t.comments = []) :
    (t.withComments comments).comments = comments := by
  rw [withComments]
  split
  · next hempty => rw [h, List.isEmpty_iff.mp hempty]
  · rfl

end Token

/-! ## Kinds of lexemes -/

theorem TokenKind.ofWord_eq (word : Text) :
    ofWord word = .identifier ∨ ∃ k, ofWord word = .keyword k := by
  rw [ofWord]
  split
  · exact .inr ⟨_, rfl⟩
  · exact .inl rfl

/-- A word is a keyword or an identifier. -/
theorem TokenKind.ofWord_ne (word : Text) :
    ofWord word ≠ .newline ∧ ofWord word ≠ .endOfSource := by
  obtain h | ⟨k, h⟩ := ofWord_eq word
  · rw [h]
    exact ⟨TokenKind.noConfusion, TokenKind.noConfusion⟩
  · rw [h]
    exact ⟨TokenKind.noConfusion, TokenKind.noConfusion⟩

theorem Numeral.kind_of_read {t : Text} {x : Lexeme} {n : Nat} (h : read t = .found x n) :
    x.kind = .number := by
  unfold read Reading.map at h
  split at h
  · cases h
    rfl
  · cases h

theorem StringLiteral.exists_value_of_readBody {quote : CodeUnit} {decoded t : Text}
    {passed n : Nat} {x : Lexeme} (h : readBody quote decoded passed t = .found x n) :
    ∃ value, x = lexeme quote value := by
  fun_induction readBody quote decoded passed t with
  | case3 decoded =>
    cases h
    exact ⟨decoded.reverse, rfl⟩
  | case5 =>
    rename_i ih
    exact ih h
  | case6 =>
    rename_i ih
    exact ih h
  | _ => cases h

theorem StringLiteral.kind_of_read {t : Text} {x : Lexeme} {n : Nat} (h : read t = .found x n) :
    x.kind = .string := by
  cases t with
  | nil => cases h
  | cons quote rest =>
    obtain ⟨_, rfl⟩ := exists_value_of_readBody h
    rfl

theorem RegExpLiteral.kind_of_read {t : Text} {x : Lexeme} {n : Nat} (h : read t = .found x n) :
    x.kind = .regExp := by
  unfold read at h
  split at h
  · cases h
    rfl
  · cases h

theorem Punctuation.kind_of_read? {t : Text} {x : Lexeme} {n : Nat} (h : read? t = some (x, n)) :
    ∃ o, x.kind = .operator o := by
  unfold read? at h
  split at h
  · cases h
  · next o _ =>
    simp only at h
    split at h
    · cases h
      exact ⟨.assign, rfl⟩
    · cases h
      exact ⟨o, rfl⟩

namespace Lexeme

/-- Where something is left to read, a lexeme is no end of the source, and it is a line break only
at a line feed, which it then covers. -/
theorem kind_of_read_cons {operand : Bool} {u : CodeUnit} {rest : Text} {x : Lexeme} {n : Nat}
    (h : read operand (u :: rest) = .found x n) :
    x.kind ≠ .endOfSource ∧ (x.kind = .newline → u = CodeUnit.lineFeed ∧ n = 1) := by
  have hplain : ∀ k : TokenKind, x.kind = k → k ≠ .newline → k ≠ .endOfSource →
      x.kind ≠ .endOfSource ∧ (x.kind = .newline → u = CodeUnit.lineFeed ∧ n = 1) := by
    rintro k rfl hnewline hend
    exact ⟨hend, fun heq => absurd heq hnewline⟩
  simp only [read] at h
  split at h
  · cases h
    obtain ⟨hnewline, hend⟩ := TokenKind.ofWord_ne
      ((u :: rest).takeWhile CharClass.nameContinue.has)
    exact hplain _ rfl hnewline hend
  · split at h
    · exact hplain _ (Numeral.kind_of_read h) TokenKind.noConfusion TokenKind.noConfusion
    · split at h
      · exact hplain _ (StringLiteral.kind_of_read h) TokenKind.noConfusion TokenKind.noConfusion
      · split at h
        · exact hplain _ (RegExpLiteral.kind_of_read h) TokenKind.noConfusion TokenKind.noConfusion
        · unfold readMark at h
          split at h
          · next hp =>
            cases h
            obtain ⟨o, ho⟩ := Punctuation.kind_of_read? hp
            exact hplain _ ho TokenKind.noConfusion TokenKind.noConfusion
          · split at h
            · next hhead =>
              cases h
              exact ⟨TokenKind.noConfusion, fun _ => ⟨Option.some.inj hhead, rfl⟩⟩
            · cases h

/-- The end of the source is read exactly where nothing is left. -/
theorem isEnd_iff_of_read {operand : Bool} {t : Text} {x : Lexeme} {n : Nat}
    (h : read operand t = .found x n) : x.kind = .endOfSource ↔ t = [] := by
  cases t with
  | nil =>
    cases h
    exact iff_of_true rfl rfl
  | cons u rest => exact iff_of_false (kind_of_read_cons h).1 (List.cons_ne_nil u rest)

/-- A line break is a line feed that stands at the front of the text. -/
theorem exists_lineFeed_of_read {operand : Bool} {t : Text} {x : Lexeme} {n : Nat}
    (h : read operand t = .found x n) (hx : x.kind = .newline) :
    n = 1 ∧ ∃ rest, t = CodeUnit.lineFeed :: rest := by
  cases t with
  | nil =>
    cases h
    cases hx
  | cons u rest =>
    obtain ⟨rfl, rfl⟩ := (kind_of_read_cons h).2 hx
    exact ⟨rfl, rest, rfl⟩

/-- At a line feed the lexeme is a line break. -/
theorem read_lineFeed (operand : Bool) (rest : Text) :
    read operand (CodeUnit.lineFeed :: rest) = .found newline 1 := by
  cases operand <;> rfl

end Lexeme

namespace Cursor

variable {source : Source} {c c' : Cursor source} {flags : Flags}

/-- Skipping returns the comments of trivia that are found, and moves behind them. -/
theorem skipTrivia_eq_ok_iff {newlines : Bool} {comments : List Text} :
    c.skipTrivia newlines = (.ok comments, c') ↔
      ∃ n, Trivia.read newlines c.rest = .found comments n ∧ c' = c.advanceBy n := by
  unfold skipTrivia Cursor.read
  cases Trivia.read newlines c.rest with
  | found found n =>
    constructor
    · rintro ⟨⟩
      exact ⟨n, rfl, rfl⟩
    · rintro ⟨_, ⟨⟩, rfl⟩
      rfl
  | broken fault site n => simp

/-- Skipping reports the fault of broken trivia at its site, and moves to where they were read. -/
theorem skipTrivia_eq_error_iff {newlines : Bool} {m : LocatedFault} :
    c.skipTrivia newlines = (.error m, c') ↔
      ∃ site n, Trivia.read newlines c.rest = .broken m.fault site n ∧
        m.location = (c.advanceBy site).location ∧ c' = c.advanceBy n := by
  unfold skipTrivia Cursor.read
  cases Trivia.read newlines c.rest with
  | found found n => simp
  | broken fault site n =>
    constructor
    · rintro ⟨⟩
      exact ⟨site, n, rfl, rfl, rfl⟩
    · obtain ⟨_, location⟩ := m
      rintro ⟨_, _, ⟨⟩, rfl, rfl⟩
      rfl

/-- A scan that succeeds: a gap of trivia, a lexeme after it, and the token of both. -/
theorem exists_of_next_eq_ok {t : Token} (h : c.next flags = (.ok t, c')) :
    ∃ comments gap x n, Trivia.read flags.newlines c.rest = .found comments gap ∧
      Lexeme.read flags.operand (c.rest.drop gap) = .found x n ∧
      t = (x.tokenAt (c.advanceBy gap).location c'.offset).withComments comments ∧
      c' = (c.advanceBy gap).advanceBy n := by
  unfold next at h
  split at h
  · cases h
  · next comments c₁ htrivia =>
    obtain ⟨gap, hgap, rfl⟩ := skipTrivia_eq_ok_iff.mp htrivia
    split at h
    · cases h
    · next t c₂ htoken =>
      cases h
      unfold Cursor.token at htoken
      split at htoken
      · next x n hx =>
        cases htoken
        exact ⟨_, _, _, _, hgap, hx, rfl, rfl⟩
      · cases htoken

/-- A scan that fails: either the trivia are broken, or the lexeme after them is. -/
theorem exists_of_next_eq_error {m : LocatedFault} (h : c.next flags = (.error m, c')) :
    (∃ site n, Trivia.read flags.newlines c.rest = .broken m.fault site n ∧
        m.location = (c.advanceBy site).location ∧ c' = c.advanceBy n) ∨
      ∃ comments gap site n, Trivia.read flags.newlines c.rest = .found comments gap ∧
        Lexeme.read flags.operand (c.rest.drop gap) = .broken m.fault site n ∧
        m.location = ((c.advanceBy gap).advanceBy site).location ∧
        c' = (c.advanceBy gap).advanceBy n := by
  unfold next at h
  split at h
  · next c₁ htrivia =>
    cases h
    exact .inl (skipTrivia_eq_error_iff.mp htrivia)
  · next comments c₁ htrivia =>
    obtain ⟨gap, hgap, rfl⟩ := skipTrivia_eq_ok_iff.mp htrivia
    split at h
    · next c₂ htoken =>
      cases h
      unfold Cursor.token at htoken
      split at htoken
      · cases htoken
      · next hbroken =>
        cases htoken
        exact .inr ⟨_, _, _, _, hgap, hbroken, rfl, rfl⟩
    · cases h

section Readings

variable {comments : List Text} {gap : Nat}

/-- Trivia and a lexeme behind them make a token. -/
theorem next_of_found {x : Lexeme} {n : Nat}
    (htrivia : Trivia.read flags.newlines c.rest = .found comments gap)
    (hlexeme : Lexeme.read flags.operand (c.rest.drop gap) = .found x n) :
    c.next flags =
      (.ok ((x.tokenAt (c.advanceBy gap).location
          ((c.advanceBy gap).advanceBy n).offset).withComments comments),
        (c.advanceBy gap).advanceBy n) := by
  simp only [next, skipTrivia, Cursor.read, htrivia, advanceBy_rest, hlexeme, Cursor.token]

/-- Behind trivia, a broken lexeme is reported. -/
theorem next_of_broken {fault : Fault} {site n : Nat}
    (htrivia : Trivia.read flags.newlines c.rest = .found comments gap)
    (hlexeme : Lexeme.read flags.operand (c.rest.drop gap) = .broken fault site n) :
    c.next flags =
      (.error ⟨fault, ((c.advanceBy gap).advanceBy site).location⟩,
        (c.advanceBy gap).advanceBy n) := by
  simp only [next, skipTrivia, Cursor.read, htrivia, advanceBy_rest, hlexeme, Cursor.token]

/-- Broken trivia are reported. -/
theorem next_of_trivia_broken {fault : Fault} {site n : Nat}
    (htrivia : Trivia.read flags.newlines c.rest = .broken fault site n) :
    c.next flags = (.error ⟨fault, (c.advanceBy site).location⟩, c.advanceBy n) := by
  simp only [next, skipTrivia, Cursor.read, htrivia]

end Readings

/-- At the end of the source, its end is scanned with any flags. -/
theorem next_of_rest_eq_nil (h : c.rest = []) (flags : Flags) :
    c.next flags = (.ok (Lexeme.endOfSource.tokenAt c.location c.offset), c) := by
  have htrivia : Trivia.read flags.newlines c.rest = .found [] 0 := by
    rw [h]
    exact Trivia.read_of_isGap (.blanks nofun)
  have hlexeme : Lexeme.read flags.operand (c.rest.drop 0) = .found Lexeme.endOfSource 0 := by
    rw [h]
    rfl
  rw [next_of_found htrivia hlexeme, advanceBy_zero, advanceBy_zero]
  rfl

end Cursor

/-! ## Ranges -/

/-- The token covers the text of the source from `start` to `stop`. -/
structure Token.Covers (source : Source) (t : Token) (start stop : Nat) : Prop where
  start_le : start ≤ stop
  stop_le : stop ≤ source.text.length
  location_eq : t.location = source.locationAt start
  stop_eq : t.stop = stop
  start_eq_length : t.kind = .endOfSource → start = source.text.length
  start_lt : t.kind ≠ .endOfSource → start < stop
  lineFeed : t.kind = .newline → source.text[start]? = some CodeUnit.lineFeed ∧ stop = start + 1

namespace Token.Covers

variable {source : Source} {t : Token} {start stop : Nat}

theorem start_eq (h : t.Covers source start stop) : t.start = start :=
  congrArg Location.offset h.location_eq

theorem line_eq (h : t.Covers source start stop) : t.line = source.text.lineAt start :=
  congrArg (fun l => l.line) h.location_eq

theorem isPlaceOf_location (h : t.Covers source start stop) : t.location.IsPlaceOf source :=
  ⟨start, Nat.le_trans h.start_le h.stop_le, h.location_eq⟩

theorem stop_eq_length (h : t.Covers source start stop) (ht : t.kind = .endOfSource) :
    stop = source.text.length :=
  Nat.le_antisymm h.stop_le (h.start_eq_length ht ▸ h.start_le)

end Token.Covers

namespace Cursor.InPlace

variable {source : Source} {c c' : Cursor source} {flags : Flags}

/-- A lexeme that is read at the cursor covers the text up to the cursor after it. -/
theorem covers_of_read_eq_found {operand : Bool} {x : Lexeme} {n : Nat} (hc : c.InPlace)
    (h : Lexeme.read operand c.rest = .found x n) (comments : List Text) :
    ((x.tokenAt c.location (c.advanceBy n).offset).withComments comments).Covers source c.offset
      (c.advanceBy n).offset := by
  have hend := hc.offset_add_length_rest
  have hkind : (x.tokenAt c.location (c.advanceBy n).offset).kind = x.kind := rfl
  have hstop : (c.advanceBy n).offset = c.offset + min n c.rest.length := advanceBy_offset c n
  refine ⟨?_, ?_, ?_, ?_, ?_, ?_, ?_⟩
  · rw [hstop]
    exact Nat.le_add_right _ _
  · rw [hstop]
    omega
  · rw [Token.withComments_location]
    exact hc.location_eq
  · rw [Token.withComments_stop]
    rfl
  · intro hx
    rw [Token.withComments_kind, hkind, Lexeme.isEnd_iff_of_read h] at hx
    rw [hx, List.length_nil] at hend
    omega
  · intro hx
    rw [Token.withComments_kind, hkind] at hx
    obtain ⟨hn, hpos⟩ := Lexeme.pos_of_read_eq_found h hx
    rw [hstop]
    omega
  · intro hx
    rw [Token.withComments_kind, hkind] at hx
    obtain ⟨rfl, rest, hrest⟩ := Lexeme.exists_lineFeed_of_read h hx
    refine ⟨?_, ?_⟩
    · rw [← head?_rest, hrest, List.head?_cons]
    · rw [hstop, hrest, List.length_cons]
      omega

/-- The token of a scan covers the text from the end of the gap to the cursor after the scan. -/
theorem exists_covers_of_next_eq_ok {t : Token} (hc : c.InPlace)
    (h : c.next flags = (.ok t, c')) :
    ∃ start, c.offset ≤ start ∧ t.Covers source start c'.offset ∧
      Trivia.read flags.newlines c.rest = .found t.comments (start - c.offset) := by
  obtain ⟨comments, gap, x, n, htrivia, hlexeme, rfl, rfl⟩ := exists_of_next_eq_ok h
  obtain ⟨hgap, -⟩ := Trivia.isGap_of_read_eq_found htrivia
  have hoffset : (c.advanceBy gap).offset = c.offset + gap := by
    rw [advanceBy_offset, Nat.min_eq_left hgap]
  refine ⟨(c.advanceBy gap).offset, ?_, (hc.advanceBy gap).covers_of_read_eq_found hlexeme _, ?_⟩
  · rw [hoffset]
    exact Nat.le_add_right _ _
  · rw [Token.withComments_comments _ _ rfl, hoffset, Nat.add_sub_cancel_left]
    exact htrivia

/-- A scan keeps a cursor in place, whether it succeeds or fails, and does not move it back. -/
theorem of_next_eq {outcome : Except LocatedFault Token} (hc : c.InPlace)
    (h : c.next flags = (outcome, c')) : c'.InPlace ∧ c.offset ≤ c'.offset := by
  cases outcome with
  | error m =>
    obtain ⟨_, n, _, _, rfl⟩ | ⟨_, gap, _, n, _, _, _, rfl⟩ := exists_of_next_eq_error h
    · refine ⟨hc.advanceBy n, ?_⟩
      rw [advanceBy_offset]
      exact Nat.le_add_right _ _
    · refine ⟨(hc.advanceBy gap).advanceBy n, ?_⟩
      rw [advanceBy_offset, advanceBy_offset, Nat.add_assoc]
      exact Nat.le_add_right _ _
  | ok t =>
    obtain ⟨start, hle, hcovers, -⟩ := hc.exists_covers_of_next_eq_ok h
    obtain ⟨_, gap, _, n, _, _, _, rfl⟩ := exists_of_next_eq_ok h
    exact ⟨(hc.advanceBy gap).advanceBy n, Nat.le_trans hle hcovers.start_le⟩

/-- A fault is reported at a place of the source. -/
theorem isPlaceOf_of_next_eq_error {m : LocatedFault} (hc : c.InPlace)
    (h : c.next flags = (.error m, c')) : m.location.IsPlaceOf source := by
  obtain ⟨site, _, _, hlocation, _⟩ | ⟨_, gap, site, _, _, _, hlocation, _⟩ :=
    exists_of_next_eq_error h
  · rw [hlocation]
    exact (hc.advanceBy site).isPlaceOf_location
  · rw [hlocation]
    exact ((hc.advanceBy gap).advanceBy site).isPlaceOf_location

end Cursor.InPlace

/-! ## Faults of a source -/

/-- The fault is one of the source, and not one of the host. -/
def Fault.IsLexical (f : Fault) : Prop := f.code.definition.category = .lexer

section Lexical

variable {t : Text} {fault : Fault} {site n : Nat}

theorem Trivia.isLexical_of_readFrom {newlines : Bool} {comments : List Text} {passed : Nat}
    (h : Trivia.readFrom newlines comments passed t = .broken fault site n) : fault.IsLexical := by
  fun_induction Trivia.readFrom newlines comments passed t with
  | case1 => cases h
  | case2 =>
    rename_i ih
    exact ih h
  | case3 =>
    cases h
    rfl

theorem Numeral.isLexical_of_readExponent {whole rest : Text} {fraction : Option Text}
    (h : readExponent whole fraction rest = .broken fault site n) : fault.IsLexical := by
  unfold readExponent at h
  split at h
  · cases h
  · split at h
    · simp only at h
      split at h
      · cases h
        rfl
      · cases h
    · cases h

theorem Numeral.isLexical_of_read (h : Numeral.read t = .broken fault site n) :
    fault.IsLexical := by
  unfold read Reading.map at h
  split at h
  · cases h
  · next hbroken =>
    cases h
    unfold readParts at hbroken
    split at hbroken
    · split at hbroken
      · unfold readHexadecimal at hbroken
        simp only at hbroken
        split at hbroken
        · cases hbroken
          rfl
        · cases hbroken
      · exact isLexical_of_readExponent hbroken
    · exact isLexical_of_readExponent hbroken

theorem StringLiteral.isLexical_of_readBody {quote : CodeUnit} {decoded : Text} {passed : Nat}
    (h : readBody quote decoded passed t = .broken fault site n) : fault.IsLexical := by
  fun_induction readBody quote decoded passed t with
  | case3 => cases h
  | case5 =>
    rename_i ih
    exact ih h
  | case6 =>
    rename_i ih
    exact ih h
  | _ =>
    cases h
    rfl

theorem StringLiteral.isLexical_of_read (h : StringLiteral.read t = .broken fault site n) :
    fault.IsLexical := by
  cases t with
  | nil =>
    cases h
    rfl
  | cons quote rest => exact isLexical_of_readBody h

theorem RegExpLiteral.isLexical_endFault (inClass : Bool) : (endFault inClass).IsLexical := by
  cases inClass <;> rfl

theorem RegExpLiteral.isLexical_of_readBody {inClass : Bool} {passed : Nat}
    (h : readBody inClass passed t = .broken fault site n) : fault.IsLexical := by
  fun_induction readBody inClass passed t with
  | case8 => cases h
  | case5 | case6 | case7 | case9 | case10 =>
    rename_i ih
    exact ih h
  | _ =>
    cases h
    exact isLexical_endFault _

theorem RegExpLiteral.isLexical_of_read (h : RegExpLiteral.read t = .broken fault site n) :
    fault.IsLexical := by
  unfold read at h
  split at h
  · cases h
  · next hbroken =>
    cases h
    exact isLexical_of_readBody hbroken

theorem Lexeme.isLexical_of_read {operand : Bool}
    (h : Lexeme.read operand t = .broken fault site n) : fault.IsLexical := by
  unfold read at h
  split at h
  · cases h
  · split at h
    · cases h
    · split at h
      · exact Numeral.isLexical_of_read h
      · split at h
        · exact StringLiteral.isLexical_of_read h
        · split at h
          · exact RegExpLiteral.isLexical_of_read h
          · unfold readMark at h
            split at h
            · cases h
            · split at h
              · cases h
              · cases h
                rfl

/-- Whatever a scan fails with is a fault of the source. -/
theorem Cursor.isLexical_of_next_eq_error {source : Source} {c c' : Cursor source} {flags : Flags}
    {m : LocatedFault} (h : c.next flags = (.error m, c')) : m.fault.IsLexical := by
  obtain ⟨_, _, hbroken, _⟩ | ⟨_, _, _, _, _, hbroken, _⟩ := exists_of_next_eq_error h
  · exact Trivia.isLexical_of_readFrom hbroken
  · exact Lexeme.isLexical_of_read hbroken

end Lexical

end ScriptScanner
