import ScriptScanner.Proofs.Lexeme.Front
import ScriptScanner.Proofs.Tokenization.Yields
set_option autoImplicit false

/-!
# Trivia do not matter

The raw texts of the tokens of a source are put side by side again, with any blanks and comments
between them as long as a blank comes first.  The new source has the same tokens in other places: no
token depended on what came after it, and the operand rule is told the same kinds.  The comments
between two raw texts go to the second token, and there are no others.
-/

namespace ScriptScanner

namespace Trivia

/-! ## Separators -/

/-- A blank, a closed block comment, or a line comment with the unit that ends its line. -/
inductive Piece where
  | blank (u : CodeUnit) (isBlank : Blank false u)
  | block (comment : Text) (isBlock : IsBlockComment comment)
  | line (comment : Text) (stop : CodeUnit) (isLine : IsLineComment comment [stop])

/-- Pieces of trivia after a blank. -/
structure Separator where
  first : CodeUnit
  isBlank : Blank false first
  pieces : List Piece

namespace Piece

/-- The piece as written. -/
def text : Piece → Text
  | blank u _ => [u]
  | block comment _ => comment
  | line comment stop _ => comment ++ [stop]

/-- The comment in the piece, if there is one. -/
def comments : Piece → List Text
  | blank _ _ => []
  | block comment _ => [comment]
  | line comment _ _ => [comment]

end Piece

namespace Separator

/-- The separator as written. -/
def text (s : Separator) : Text := s.first :: s.pieces.flatMap Piece.text

/-- The comments in the separator. -/
def comments (s : Separator) : List Text := s.pieces.flatMap Piece.comments

end Separator

section Reading

variable {earlier : List Text} {passed : Nat}

theorem readFrom_piece (p : Piece) (t : Text) :
    readFrom false earlier passed (p.text ++ t) =
      readFrom false (p.comments.reverse ++ earlier) (passed + p.text.length) t := by
  cases p with
  | blank u isBlank => exact readFrom_blank isBlank t
  | block c isBlock => exact readFrom_comment (.inl isBlock)
  | line c stop isLine =>
    obtain ⟨body, hbody, hclean, hstop⟩ := isLine
    have hline : IsLineComment c ([stop] ++ t) := ⟨body, hbody, hclean, hstop⟩
    have hblank : Blank false stop := by
      rcases hstop stop rfl with rfl | rfl
      · exact .inr ⟨rfl, rfl⟩
      · exact .inl (by decide)
    change readFrom false earlier passed (c ++ [stop] ++ t) =
      readFrom false (c :: earlier) (passed + (c ++ [stop]).length) t
    rw [List.append_assoc, readFrom_comment (.inr hline), List.singleton_append,
      readFrom_blank hblank, List.length_append, List.length_singleton, Nat.add_assoc]

theorem readFrom_pieces (pieces : List Piece) (t : Text) :
    readFrom false earlier passed (pieces.flatMap Piece.text ++ t) =
      readFrom false ((pieces.flatMap Piece.comments).reverse ++ earlier)
        (passed + (pieces.flatMap Piece.text).length) t := by
  induction pieces generalizing earlier passed with
  | nil => rfl
  | cons p pieces ih =>
    rw [List.flatMap_cons, List.flatMap_cons, List.append_assoc, readFrom_piece, ih,
      List.reverse_append, List.append_assoc, List.length_append, Nat.add_assoc]

end Reading

/-- A separator is passed over, and its comments are found. -/
theorem read_separator (s : Separator) (t : Text) :
    read false (s.text ++ t) = resume s.comments s.text.length (read false t) := by
  rw [read, Separator.text, List.cons_append, readFrom_blank s.isBlank, readFrom_pieces,
    readFrom_eq_resume, List.append_nil, List.reverse_reverse, List.length_cons, Nat.zero_add,
    Nat.add_comm 1]
  rfl

end Trivia

open Trivia (Separator)

variable {source respelled : Source}

/-! ## A token by itself -/

namespace Token

/-- The text of the source that a token covers. -/
def raw (source : Source) (t : Token) : Text := source.text.slice t.start t.stop

/-- A token that is made at a cursor covers the text that the cursor passes over. -/
theorem raw_tokenAt {c : Cursor source} {x after : Text} (h : c.rest = x ++ after) (l : Lexeme)
    (comments : List Text) :
    ((l.tokenAt c.location (c.advanceBy x.length).offset).withComments comments).raw source =
      x := by
  have hrest : source.text.drop c.offset = x ++ after := c.rest_eq.symm.trans h
  have hlength : min x.length c.rest.length = x.length := by
    rw [h, List.length_append]
    exact Nat.min_eq_left (Nat.le_add_right _ _)
  rw [raw, withComments_start, withComments_stop]
  change source.text.slice c.offset (c.advanceBy x.length).offset = x
  rw [Text.slice_natCast, hrest, Cursor.advanceBy_offset, hlength, Nat.add_sub_cancel_left,
    List.take_left]

end Token

/-- Before a blank or the end of the source, the text is the lexeme, and not trivia. -/
structure Lexeme.Spells (operand : Bool) (l : Lexeme) (x : Text) : Prop where
  trivia : ∀ after, MayReplace after [] → Trivia.read false (x ++ after) = .found [] 0
  lexeme : ∀ after, MayReplace after [] → Lexeme.read operand (x ++ after) = .found l x.length

namespace Cursor

/-- The raw text of a token is the token's lexeme wherever it stands. -/
theorem spells_of_next {c c' : Cursor source} {operand : Bool} {t : Token}
    (h : c.next ⟨false, operand⟩ = (.ok t, c')) (ht : t.kind ≠ .endOfSource) :
    t.toLexeme.Spells operand (t.raw source) := by
  obtain ⟨comments, gap, l, n, htrivia, hlexeme, rfl, rfl⟩ := exists_of_next_eq_ok h
  obtain ⟨_, _, habsent, hstop⟩ := Trivia.isGap_of_read_eq_found htrivia
  rw [Token.withComments_kind] at ht
  have hsome : c.rest.drop gap ≠ [] := mt (Lexeme.isEnd_iff_of_read hlexeme).mpr ht
  obtain ⟨x, after, hcut, rfl, hx, hfinds⟩ := Lexeme.exists_finds hlexeme hsome
  have hreplace : ∀ after', MayReplace after' [] → MayReplace after' after :=
    fun after' hr u hu => .inr ((hr u hu).resolve_left nofun)
  rw [hcut] at habsent hstop
  rw [Token.raw_tokenAt hcut, Token.withComments_toLexeme]
  exact ⟨fun after' hr => Trivia.read_replace hx (hreplace after' hr) habsent hstop,
    fun after' hr => hfinds after' (hreplace after' hr)⟩

/-- Where the text of a lexeme stands, the lexeme is scanned. -/
theorem next_of_spells {c : Cursor source} {operand : Bool} {l : Lexeme} {x after : Text}
    (h : l.Spells operand x) (hrest : c.rest = x ++ after) (hafter : MayReplace after []) :
    c.next ⟨false, operand⟩ =
      (.ok (l.tokenAt c.location (c.advanceBy x.length).offset), c.advanceBy x.length) := by
  have htrivia : Trivia.read false c.rest = .found [] 0 := hrest ▸ h.trivia after hafter
  have hlexeme : Lexeme.read operand (c.rest.drop 0) = .found l x.length :=
    hrest ▸ h.lexeme after hafter
  rw [next_of_found htrivia hlexeme, advanceBy_zero]
  rfl

/-- Behind a separator the scan finds the same, after the comments of the separator. -/
theorem leads_of_separator {c : Cursor source} {s : Separator} {t : Text}
    (h : c.rest = s.text ++ t) : c.Leads s.comments (c.advanceBy s.text.length) := by
  refine fun _ => next_of_read_eq_resume ?_
  rw [advanceBy_rest, h, List.drop_left, Trivia.read_separator]

end Cursor

/-! ## Texts and separators -/

/-- Each of the texts after its separator. -/
def continued (between : Nat → Separator) : List Text → Text
  | [] => []
  | x :: rest => (between 0).text ++ (x ++ continued (fun i => between (i + 1)) rest)

/-- The texts with a separator between any two neighbours. -/
def joined (between : Nat → Separator) : List Text → Text
  | [] => []
  | x :: rest => x ++ continued between rest

theorem mayReplace_continued (between : Nat → Separator) (texts : List Text) :
    MayReplace (continued between texts) [] := by
  cases texts with
  | nil => exact .nil []
  | cons x rest =>
    rintro u hu
    exact .inr (Option.some.inj hu ▸ (between 0).isBlank)

/-- The raw texts of all tokens but the last one. -/
def rawTexts (source : Source) (tokens : List Token) : List Text :=
  tokens.dropLast.map (Token.raw source)

theorem Cursor.toLexeme_of_isEnd {c c' : Cursor source} {flags : Flags} {t : Token}
    (h : c.next flags = (.ok t, c')) (ht : t.kind = .endOfSource) :
    t.toLexeme = Lexeme.endOfSource := by
  obtain ⟨comments, gap, l, n, _, hlexeme, rfl, rfl⟩ := exists_of_next_eq_ok h
  rw [Token.withComments_kind] at ht
  rw [Token.withComments_toLexeme]
  rw [(Lexeme.isEnd_iff_of_read hlexeme).mp ht] at hlexeme
  cases hlexeme
  rfl

section RawTexts

variable {t : Token} {tokens : List Token}

theorem rawTexts_cons (h : tokens ≠ []) :
    rawTexts source (t :: tokens) = t.raw source :: rawTexts source tokens := by
  rw [rawTexts, List.dropLast_cons_of_ne_nil h]
  rfl

end RawTexts

namespace Cursor.Yields

variable {newlines : Bool} {rule : Option TokenKind → Bool} {previous : Option TokenKind}
  {tokens : List Token}

theorem exists_last {c c₁ : Cursor source} {t : Token}
    (h : c.next ⟨false, rule previous⟩ = (.ok t, c₁)) (ht : t.kind = .endOfSource)
    {c' : Cursor respelled} (hrest : c'.rest = []) :
    ∃ t', c'.Yields false rule previous [t'] none ∧ t'.toLexeme = t.toLexeme ∧ t'.comments = [] :=
  ⟨_, .last (next_of_rest_eq_nil hrest _) rfl, (toLexeme_of_isEnd h ht).symm, rfl⟩

/-- Where the raw texts of tokens stand, each after its separator, the same tokens are yielded, and
each has the comments of its separator. -/
theorem exists_continued {c : Cursor source}
    (h : c.Yields false rule previous tokens none) {c' : Cursor respelled}
    {between : Nat → Separator} (hrest : c'.rest = continued between (rawTexts source tokens)) :
    ∃ tokens', c'.Yields false rule previous tokens' none ∧
      tokens'.map Token.toLexeme = tokens.map Token.toLexeme ∧
      ∀ i t, tokens'[i]? = some t →
        t.comments = if i + 1 = tokens.length then [] else (between i).comments := by
  generalize hfault : none = fault at h
  induction h generalizing c' between with
  | failed => cases hfault
  | @last c _ previous t scan isEnd =>
    obtain ⟨t', hyields, hlexeme, hcomments⟩ := exists_last scan isEnd hrest
    refine ⟨[t'], hyields, congrArg (fun l => [l]) hlexeme, ?_⟩
    rintro (_ | i) _ heq
    · exact Option.some.inj heq ▸ hcomments
    · cases heq
  | @token c _ previous t tokens fault scan notEnd rest ih =>
    subst hfault
    rw [rawTexts_cons rest.ne_nil, continued] at hrest
    have hfront : (c'.advanceBy (between 0).text.length).rest = t.raw source ++
        continued (fun i => between (i + 1)) (rawTexts source tokens) := by
      rw [advanceBy_rest, hrest, List.drop_left]
    have hscan := next_of_spells (spells_of_next scan notEnd) hfront (mayReplace_continued _ _)
    have hbehind :
        ((c'.advanceBy (between 0).text.length).advanceBy (t.raw source).length).rest =
          continued (fun i => between (i + 1)) (rawTexts source tokens) := by
      rw [advanceBy_rest, hfront, List.drop_left]
    obtain ⟨tokens', hyields, hlexemes, hcomments⟩ := ih hbehind rfl
    refine ⟨_, .token ((leads_of_separator hrest).next_eq hscan) notEnd hyields, ?_, ?_⟩
    · rw [List.map_cons, List.map_cons, hlexemes]
      rfl
    · rintro (_ | i) t' ht'
      · obtain rfl := Option.some.inj ht'
        have hmore : ¬ 0 + 1 = (t :: tokens).length := fun heq =>
          rest.ne_nil (List.length_eq_zero_iff.mp (Nat.succ.inj heq).symm)
        rw [if_neg hmore]
        exact List.append_nil _
      · rw [hcomments i t' ht', List.length_cons]
        simp only [Nat.add_right_cancel_iff]

/-- The same without a separator before the first raw text. -/
theorem exists_joined {c : Cursor source} (h : c.Yields false rule previous tokens none)
    {c' : Cursor respelled} {between : Nat → Separator}
    (hrest : c'.rest = joined between (rawTexts source tokens)) :
    ∃ tokens', c'.Yields false rule previous tokens' none ∧
      tokens'.map Token.toLexeme = tokens.map Token.toLexeme ∧
      ∀ i t, tokens'[i]? = some t →
        t.comments = if i = 0 ∨ i + 1 = tokens.length then [] else (between (i - 1)).comments := by
  cases h with
  | last scan isEnd =>
    obtain ⟨t', hyields, hlexeme, hcomments⟩ := exists_last scan isEnd hrest
    refine ⟨[t'], hyields, congrArg (fun l => [l]) hlexeme, ?_⟩
    rintro (_ | i) _ heq
    · exact Option.some.inj heq ▸ hcomments
    · cases heq
  | @token _ c₁ _ t tokens _ scan notEnd rest =>
    rw [rawTexts_cons rest.ne_nil, joined] at hrest
    have hscan := next_of_spells (spells_of_next scan notEnd) hrest (mayReplace_continued _ _)
    have hbehind : (c'.advanceBy (t.raw source).length).rest =
        continued between (rawTexts source tokens) := by
      rw [advanceBy_rest, hrest, List.drop_left]
    obtain ⟨tokens', hyields, hlexemes, hcomments⟩ := rest.exists_continued hbehind
    refine ⟨_, .token hscan notEnd hyields, ?_, ?_⟩
    · rw [List.map_cons, List.map_cons, hlexemes]
      rfl
    · rintro (_ | i) t' ht'
      · obtain rfl := Option.some.inj ht'
        rfl
      · rw [hcomments i t' ht', List.length_cons]
        simp only [Nat.add_right_cancel_iff, Nat.add_one_ne_zero, false_or,
          Nat.add_one_sub_one]

end Cursor.Yields

/-! ## Whole sources -/

/-- The raw texts of the tokens with separators between them are scanned as the same tokens, in
their places in the new source, and the comments of a separator go to the token after it. -/
theorem tokenize_joined {source respelled : Source} {s : Settings} {rule : Option TokenKind → Bool}
    (hrule : s.rule = OperandRule.ofKind rule) (ho : s.observer.LetsTokensPass)
    (hnewlines : s.newlines = false) (hnone : (tokenize source s).failure = none)
    (between : Nat → Separator)
    (htext : respelled.text = joined between (rawTexts source (tokenize source s).tokens)) :
    (tokenize respelled s).failure = none ∧
      (tokenize respelled s).tokens.map Token.toLexeme =
        (tokenize source s).tokens.map Token.toLexeme ∧
      ∀ i t, (tokenize respelled s).tokens[i]? = some t →
        t.comments = if i = 0 ∨ i + 1 = (tokenize source s).tokens.length then []
          else (between (i - 1)).comments := by
  obtain ⟨fault, hfailure, hyields⟩ := exists_yields_tokenize source hrule ho
  obtain rfl : fault = none := Option.map_eq_none_iff.mp (hfailure.symm.trans hnone)
  rw [hnewlines] at hyields
  have hstart : (Cursor.start respelled).rest =
      joined between (rawTexts source (tokenize source s).tokens) := htext
  obtain ⟨tokens', hyields', hlexemes, hcomments⟩ := hyields.exists_joined hstart
  rw [← hnewlines] at hyields'
  obtain ⟨rfl, hfailure'⟩ := tokenize_eq_of_yields hrule ho hyields'
  exact ⟨hfailure', hlexemes, hcomments⟩

/-- A number that begins with a point is divided by a string that ends in an octal escape, and a
regular expression with a class and a flag is added. -/
def crowdedLiterals : Source := ⟨"x=.5/'\\7'+/[/]/g", by decide +kernel⟩

theorem isLineComment_name :
    Trivia.IsLineComment (Text.ofString "//a") [CodeUnit.carriageReturn] := by
  refine ⟨Text.ofString "a", rfl, fun u hu => ?_, fun u hu => .inr (Option.some.inj hu).symm⟩
  obtain rfl := List.mem_singleton.mp hu
  decide

/-- A line feed, a line comment that ends in a carriage return, and a block comment. -/
def commentedBreak : Separator where
  first := CodeUnit.lineFeed
  isBlank := .inr ⟨rfl, rfl⟩
  pieces := [
    .line "//a" CodeUnit.carriageReturn isLineComment_name,
    .block "/*/*/" ⟨Text.ofString "/", rfl, by decide⟩]

/-- The same literals with separators between them. -/
def separatedLiterals : Source :=
  ⟨joined (fun _ => commentedBreak)
    [Text.ofString "x", Text.ofString "=", Text.ofString ".5", Text.ofString "/",
      Text.ofString "'\\7'", Text.ofString "+", Text.ofString "/[/]/g"], by decide +kernel⟩

theorem tokenize_joined_crowdedLiterals :
    OperandRule.default = OperandRule.ofKind expectsOperand ∧ Observer.silent.LetsTokensPass ∧
      (tokenize crowdedLiterals {}).failure = none ∧
      separatedLiterals.text = joined (fun _ => commentedBreak)
        (rawTexts crowdedLiterals (tokenize crowdedLiterals {}).tokens) ∧
      (tokenize separatedLiterals {}).failure = none ∧
      (tokenize separatedLiterals {}).tokens.map Token.toLexeme =
        (tokenize crowdedLiterals {}).tokens.map Token.toLexeme := by
  have hpass : Observer.silent.LetsTokensPass := fun _ _ => rfl
  have hnone : (tokenize crowdedLiterals {}).failure = none :=
    Option.isNone_iff_eq_none.mp (by decide +kernel)
  have htext : separatedLiterals.text = joined (fun _ => commentedBreak)
      (rawTexts crowdedLiterals (tokenize crowdedLiterals {}).tokens) := by decide +kernel
  obtain ⟨hnone', hlexemes, _⟩ :=
    tokenize_joined (s := {}) OperandRule.default_eq_ofKind hpass rfl hnone
      (fun _ => commentedBreak) htext
  exact ⟨OperandRule.default_eq_ofKind, hpass, hnone, htext, hnone', hlexemes⟩

end ScriptScanner
