import ScriptScanner.Proofs.LineBreaks
import ScriptScanner.Proofs.Tokenization
import ScriptScanner.Proofs.Tokenization.Yields
set_option autoImplicit false

/-!
# Line breaks as tokens only add tokens

A source is scanned twice, with line breaks as tokens and with line breaks as blanks, and the
decision what a slash means depends on the kind of the last token that is no line break.  Then both
runs fail in the same way or neither fails, and the tokens of the second are those of the first
without its line breaks, whose comments go to the tokens behind them.

Where the line breaks are is said by an outline of the source, which goes over it unit by unit: each
line feed that is neither in a comment nor in another token is a line break, and nothing else is.
-/

namespace ScriptScanner

variable {source : Source}

/-- The tokens that are no line breaks.  Each gets the comments of the line breaks right before it
in front of its own, and the first of them gets the carried comments besides. -/
def withoutBreaks (carried : List Text) : List Token → List Token
  | [] => []
  | t :: rest =>
      if t.kind = .newline then withoutBreaks (carried ++ t.comments) rest
      else t.precededBy carried :: withoutBreaks [] rest

/-- The offsets of the line breaks among the tokens. -/
def breakOffsets (tokens : List Token) : List Int :=
  (tokens.filter fun t => t.kind = .newline).map fun t => t.start

section Laws

variable {t : Token} (carried : List Text) (rest : List Token)

theorem withoutBreaks_of_newline (ht : t.kind = .newline) :
    withoutBreaks carried (t :: rest) = withoutBreaks (carried ++ t.comments) rest := by
  rw [withoutBreaks, if_pos ht]

theorem withoutBreaks_of_ne_newline (ht : t.kind ≠ .newline) :
    withoutBreaks carried (t :: rest) = t.precededBy carried :: withoutBreaks [] rest := by
  rw [withoutBreaks, if_neg ht]

theorem breakOffsets_of_newline (ht : t.kind = .newline) :
    breakOffsets (t :: rest) = t.start :: breakOffsets rest := by
  have hfilter : ((t :: rest).filter fun t => t.kind = .newline) =
      t :: rest.filter fun t => t.kind = .newline := List.filter_cons_of_pos (by simpa using ht)
  rw [breakOffsets, hfilter]
  rfl

theorem breakOffsets_of_ne_newline (ht : t.kind ≠ .newline) :
    breakOffsets (t :: rest) = breakOffsets rest := by
  have hfilter : ((t :: rest).filter fun t => t.kind = .newline) =
      rest.filter fun t => t.kind = .newline := List.filter_cons_of_neg (by simpa using ht)
  rw [breakOffsets, hfilter]
  rfl

end Laws

/-! ## What the two runs yield -/

/-- From a cursor on that leads to another one, the run with line breaks as blanks yields the tokens
of the other run without its line breaks. -/
theorem Cursor.Yields.withoutBreaks {rule : Option TokenKind → Bool} {c : Cursor source}
    {previous : Option TokenKind} {tokens : List Token} {fault : Option LocatedFault}
    (h : c.Yields true rule previous tokens fault) {c' : Cursor source} {carried : List Text}
    (hleads : c'.Leads carried c) :
    c'.Yields false rule previous (withoutBreaks carried tokens) fault := by
  induction h generalizing c' carried with
  | failed scan =>
    exact .failed (hleads.next_eq (next_false_of_no_lineBreak scan fun _ ht => nomatch ht))
  | @last c c₂ previous t scan isEnd =>
    have hne : t.kind ≠ .newline := fun hnewline => nomatch isEnd.symm.trans hnewline
    have hplain := next_false_of_no_lineBreak scan fun t' heq => Except.ok.inj heq ▸ hne
    rw [withoutBreaks_of_ne_newline _ _ hne]
    exact .last (hleads.next_eq hplain) isEnd
  | @token c c₂ previous t tokens fault scan notEnd _ ih =>
    by_cases ht : t.kind = .newline
    · have hkind : TokenKind.significant previous t.kind = previous := if_pos ht
      rw [hkind] at ih
      rw [withoutBreaks_of_newline _ _ ht]
      exact ih (hleads.trans (leads_of_lineBreak scan ht))
    · have hplain := next_false_of_no_lineBreak scan fun t' heq => Except.ok.inj heq ▸ ht
      rw [withoutBreaks_of_ne_newline _ _ ht]
      exact .token (hleads.next_eq hplain) notEnd (ih (.refl c₂))

/-! ## Where the line breaks are -/

/-- The comments before the first token. -/
def leadingComments (tokens : List Token) : List Text :=
  (tokens.head?.map fun t => t.comments).getD []

/-- From an offset on, the source consists of blanks, of the comments that are still to come before
the first token, and of the tokens with the comments before them; `breaks` are the offsets of the
line feeds that lie in no comment and in no token. -/
inductive Outline (source : Source) :
    (offset : Nat) → (comments : List Text) → (tokens : List Token) → (breaks : List Int) → Prop
  | space {offset : Nat} {u : CodeUnit} {comments : List Text} {tokens : List Token}
      {breaks : List Int} (unit_eq : source.text[offset]? = some u)
      (isSpace : u ∈ Trivia.inlineBlanks)
      (rest : Outline source (offset + 1) comments tokens breaks) :
      Outline source offset comments tokens breaks
  | lineFeed {offset : Nat} {comments : List Text} {tokens : List Token} {breaks : List Int}
      (unit_eq : source.text[offset]? = some CodeUnit.lineFeed)
      (rest : Outline source (offset + 1) comments tokens breaks) :
      Outline source offset comments tokens (offset :: breaks)
  | comment {offset : Nat} {comment after : Text} {comments : List Text} {tokens : List Token}
      {breaks : List Int} (text_eq : source.text.drop offset = comment ++ after)
      (isComment : Trivia.IsBlockComment comment ∨ Trivia.IsLineComment comment after)
      (rest : Outline source (offset + comment.length) comments tokens breaks) :
      Outline source offset (comment :: comments) tokens breaks
  | token {start stop : Nat} {t : Token} {tokens : List Token} {breaks : List Int}
      (notNewline : t.kind ≠ .newline) (notEnd : t.kind ≠ .endOfSource)
      (covers : t.Covers source start stop)
      (rest : Outline source stop (leadingComments tokens) tokens breaks) :
      Outline source start [] (t :: tokens) breaks
  | last {start : Nat} {t : Token} (isEnd : t.kind = .endOfSource)
      (covers : t.Covers source start source.text.length) : Outline source start [] [t] []

namespace Outline

variable {offset : Nat} {comments : List Text} {tokens : List Token} {breaks : List Int}

theorem of_spaces {blanks : Text} (hblank : ∀ u ∈ blanks, Trivia.Blank true u) {after : Text}
    (htext : source.text.drop offset = blanks ++ after)
    (rest : Outline source (offset + blanks.length) comments tokens breaks) :
    Outline source offset comments tokens breaks := by
  induction blanks generalizing offset with
  | nil => exact rest
  | cons u blanks ih =>
    obtain ⟨hu, hblanks⟩ := List.forall_mem_cons.mp hblank
    have hunit : source.text[offset]? = some u := by
      rw [← List.head?_drop, htext, List.cons_append, List.head?_cons]
    have hnext : source.text.drop (offset + 1) = blanks ++ after := by
      rw [← List.drop_drop, htext, List.cons_append, List.drop_succ_cons, List.drop_zero]
    rw [List.length_cons, Nat.add_comm blanks.length, ← Nat.add_assoc] at rest
    refine .space hunit ?_ (ih hblanks hnext rest)
    obtain hspace | ⟨_, hfalse⟩ := hu
    · exact hspace
    · cases hfalse

/-- A gap without line feeds among its blanks adds its comments. -/
theorem of_isGap {gap after : Text} {own : List Text} (h : Trivia.IsGap true after own gap)
    (htext : source.text.drop offset = gap ++ after)
    (rest : Outline source (offset + gap.length) comments tokens breaks) :
    Outline source offset (own ++ comments) tokens breaks := by
  induction h generalizing offset with
  | blanks hblank => exact of_spaces hblank htext rest
  | @comment blanks comment gap own hblank hcomment _ ih =>
    rw [List.append_assoc, List.append_assoc] at htext
    have hbehind : source.text.drop (offset + blanks.length) = comment ++ (gap ++ after) := by
      rw [← List.drop_drop, htext, List.drop_left]
    have hbeyond : source.text.drop (offset + blanks.length + comment.length) = gap ++ after := by
      rw [← List.drop_drop, hbehind, List.drop_left]
    rw [List.length_append, List.length_append, ← Nat.add_assoc, ← Nat.add_assoc] at rest
    exact of_spaces hblank htext (.comment hbehind hcomment (ih hbeyond rest))

/-- What lies between two tokens is a gap, and the second token comes right behind it. -/
theorem of_gap_before {own : List Text} {start stop : Nat} {t : Token} (hle : offset ≤ start)
    (hcovers : t.Covers source start stop)
    (h : Trivia.IsGap true (source.text.drop start) own
      ((source.text.drop offset).take (start - offset)))
    (rest : Outline source start comments tokens breaks) :
    Outline source offset (own ++ comments) tokens breaks := by
  have hbound : start ≤ source.text.length := Nat.le_trans hcovers.start_le hcovers.stop_le
  have hlength : offset + ((source.text.drop offset).take (start - offset)).length = start := by
    rw [List.length_take, List.length_drop]
    omega
  have hbehind : (source.text.drop offset).drop (start - offset) = source.text.drop start := by
    rw [List.drop_drop, Nat.add_sub_cancel' hle]
  refine of_isGap h ?_ (hlength.symm ▸ rest)
  rw [← hbehind, List.take_append_drop]

end Outline

theorem Token.Covers.precededBy {t : Token} {start stop : Nat} (h : t.Covers source start stop)
    (comments : List Text) : (t.precededBy comments).Covers source start stop :=
  ⟨h.start_le, h.stop_le, h.location_eq, h.stop_eq, h.start_eq_length, h.start_lt, h.lineFeed⟩

/-- Tokens that fill the source together with their gaps outline it, with the line breaks among them
left out. -/
theorem Tiles.exists_outline {offset : Nat} {tokens : List Token}
    (h : Tiles source true offset tokens) (carried : List Text) :
    ∃ owed, leadingComments (withoutBreaks carried tokens) = carried ++ owed ∧
      Outline source offset owed (withoutBreaks carried tokens) (breakOffsets tokens) := by
  induction h generalizing carried with
  | @last offset start t hle hend hcovers hgap =>
    have hne : t.kind ≠ .newline := fun hnewline => nomatch hend.symm.trans hnewline
    rw [withoutBreaks_of_ne_newline _ _ hne, breakOffsets_of_ne_newline _ hne]
    refine ⟨t.comments, rfl, ?_⟩
    rw [← List.append_nil t.comments]
    exact .of_gap_before hle hcovers hgap (.last hend (hcovers.precededBy carried))
  | @token offset start stop t rest hle hend hcovers hgap _ ih =>
    by_cases ht : t.kind = .newline
    · obtain ⟨owed, hleading, houtline⟩ := ih (carried ++ t.comments)
      obtain ⟨hfeed, rfl⟩ := hcovers.lineFeed ht
      rw [withoutBreaks_of_newline _ _ ht, breakOffsets_of_newline _ ht, hcovers.start_eq]
      refine ⟨t.comments ++ owed, ?_, .of_gap_before hle hcovers hgap (.lineFeed hfeed houtline)⟩
      rw [hleading, List.append_assoc]
    · obtain ⟨owed, hleading, houtline⟩ := ih []
      rw [List.nil_append] at hleading
      rw [← hleading] at houtline
      rw [withoutBreaks_of_ne_newline _ _ ht, breakOffsets_of_ne_newline _ ht]
      refine ⟨t.comments, rfl, ?_⟩
      rw [← List.append_nil t.comments]
      exact .of_gap_before hle hcovers hgap (.token ht hend (hcovers.precededBy carried) houtline)

/-! ## Whole sources -/

/-- To scan line breaks as tokens changes nothing about whether and how a run fails.  The tokens of
the run with line breaks as blanks are those of the other run without its line breaks, and in a run
that does not fail there is one line break for each line feed outside of comments and other tokens.
-/
theorem tokenize_withoutBreaks (source : Source) {s : Settings} {rule : Option TokenKind → Bool}
    (hrule : s.rule = OperandRule.ofKind rule) (ho : s.observer.LetsTokensPass) :
    (tokenize source { s with newlines := true }).failure =
        (tokenize source { s with newlines := false }).failure ∧
      (tokenize source { s with newlines := false }).tokens =
        withoutBreaks [] (tokenize source { s with newlines := true }).tokens ∧
      ((tokenize source { s with newlines := true }).failure = none →
        Outline source 0 (leadingComments (tokenize source { s with newlines := false }).tokens)
          (tokenize source { s with newlines := false }).tokens
          (breakOffsets (tokenize source { s with newlines := true }).tokens)) := by
  obtain ⟨fault, hfailure, hyields⟩ :=
    exists_yields_tokenize (s := { s with newlines := true }) source hrule ho
  obtain ⟨htokens, hplain⟩ :=
    tokenize_eq_of_yields (s := { s with newlines := false }) hrule ho
      (hyields.withoutBreaks (.refl _))
  refine ⟨hfailure.trans hplain.symm, htokens, fun hnone => ?_⟩
  obtain ⟨owed, hleading, houtline⟩ := (tiles_tokenize hnone).exists_outline []
  rw [htokens, hleading]
  exact houtline

/-- Two names with a line comment, an empty line and a comment over two lines between them. -/
def commentedBreaks : Source := ⟨"a // b\n\n/* \n */ c", by decide +kernel⟩

theorem tokenize_withoutBreaks_commentedBreaks :
    OperandRule.default = OperandRule.ofKind expectsOperand ∧ Observer.silent.LetsTokensPass ∧
      (tokenize commentedBreaks { newlines := true }).failure = none ∧
      breakOffsets (tokenize commentedBreaks { newlines := true }).tokens = [6, 7] ∧
      Outline commentedBreaks 0
        (leadingComments (tokenize commentedBreaks { newlines := false }).tokens)
        (tokenize commentedBreaks { newlines := false }).tokens
        (breakOffsets (tokenize commentedBreaks { newlines := true }).tokens) := by
  have hpass : Observer.silent.LetsTokensPass := fun _ _ => rfl
  have hnone : (tokenize commentedBreaks { newlines := true }).failure = none :=
    Option.isNone_iff_eq_none.mp (by decide +kernel)
  obtain ⟨_, _, houtline⟩ :=
    tokenize_withoutBreaks commentedBreaks (s := {}) OperandRule.default_eq_ofKind hpass
  exact ⟨OperandRule.default_eq_ofKind, hpass, hnone, by decide +kernel, houtline hnone⟩

end ScriptScanner
