import ScriptScanner.Proofs.Lexeme.Replacement
import ScriptScanner.Proofs.Tokenization.Attempts
set_option autoImplicit false

/-!
# What a slash is in a run

A slash opens a regular expression or divides, and nothing else has a regular expression or the
division operator come of it.  Which of the two it does at an attempt of a run is what the rule
answers, and the rule is told the last token that is no line break.  So with the rule of this
library a slash divides exactly after the tokens that complete an operand.
-/

namespace ScriptScanner

/-! ## Operators that begin with a slash -/

/-- The division operator, or the assignment that divides. -/
def Lexeme.Divides (x : Lexeme) : Prop :=
  x = Punctuation.lexeme .divide ∨ x = Punctuation.compoundLexeme .divide

/-- Division is the one operator that begins with a slash. -/
theorem Operator.head?_spelling_eq_slash_iff (o : Operator) :
    o.spelling.head? = some CodeUnit.slash ↔ o = .divide := by
  have hall : ∀ o ∈ all, o.spelling.head? = some CodeUnit.slash ↔ o = .divide := by decide
  exact hall o o.mem_all

namespace Punctuation

variable {o : Operator} {x : Lexeme} {t : Text} {n : Nat}

theorem exists_operator?_of_read? (h : read? t = some (x, n)) :
    ∃ o, operator? t = some o ∧ (x = lexeme o ∨ x = compoundLexeme o) := by
  unfold read? at h
  split at h
  · cases h
  · next o ho =>
    simp only at h
    split at h
    · cases h
      exact ⟨o, ho, .inr rfl⟩
    · cases h
      exact ⟨o, ho, .inl rfl⟩

theorem divides_iff (hx : x = lexeme o ∨ x = compoundLexeme o) : x.Divides ↔ o = .divide := by
  constructor
  · rintro (hplain | hcompound)
    · rcases hx with rfl | rfl
      · exact TokenKind.operator.inj (congrArg Lexeme.kind hplain)
      · exact nomatch congrArg Lexeme.applies hplain
    · rcases hx with rfl | rfl
      · exact nomatch congrArg Lexeme.applies hcompound
      · exact TokenKind.operator.inj (Option.some.inj (congrArg Lexeme.applies hcompound))
  · rintro rfl
    exact hx

/-- An operator that is read divides if and only if it begins with a slash. -/
theorem divides_iff_of_read? (h : read? t = some (x, n)) :
    x.Divides ↔ t.head? = some CodeUnit.slash := by
  obtain ⟨o, ho, hx⟩ := exists_operator?_of_read? h
  obtain ⟨after, rfl, -⟩ := exists_of_operator? ho
  obtain ⟨u, rest, hspelling⟩ := List.exists_cons_of_ne_nil o.spelling_ne_nil
  rw [divides_iff hx, ← o.head?_spelling_eq_slash_iff, hspelling, List.cons_append, List.head?_cons,
    List.head?_cons]

end Punctuation

/-! ## One scan -/

/-- A lexeme that begins with this unit is what the answer makes of a slash: a regular expression
exactly if it begins with a slash and an operand may stand there, and a division exactly if it
begins with a slash and none may. -/
structure Lexeme.FollowsAnswer (answer : Bool) (first : Option CodeUnit) (x : Lexeme) : Prop where
  isRegExp_iff : x.kind = .regExp ↔ first = some CodeUnit.slash ∧ answer = true
  divides_iff : x.Divides ↔ first = some CodeUnit.slash ∧ answer = false

namespace Lexeme

variable {x : Lexeme} {operand : Bool} {first : Option CodeUnit}

theorem Divides.exists_kind_eq (h : x.Divides) : ∃ o, x.kind = .operator o := by
  obtain rfl | rfl := h
  · exact ⟨.divide, rfl⟩
  · exact ⟨.assign, rfl⟩

/-- What begins with another unit, and is neither an expression nor an operator, has nothing to do
with the answer. -/
theorem FollowsAnswer.of_kind (hfirst : first ≠ some CodeUnit.slash) {k : TokenKind}
    (hk : x.kind = k) (hkind : k ≠ .regExp) (hoperator : ∀ o, k ≠ .operator o) :
    x.FollowsAnswer operand first := by
  refine ⟨iff_of_false (hk ▸ hkind) fun h => hfirst h.1, iff_of_false ?_ fun h => hfirst h.1⟩
  intro hdivides
  obtain ⟨o, ho⟩ := hdivides.exists_kind_eq
  exact hoperator o (hk.symm.trans ho)

theorem followsAnswer_of_readMark {u : CodeUnit} {rest : Text} {n : Nat}
    (hanswer : u = CodeUnit.slash → operand = false)
    (h : readMark (u :: rest) = .found x n) : x.FollowsAnswer operand (some u) := by
  unfold readMark at h
  split at h
  · next hread =>
    cases h
    obtain ⟨o, ho⟩ := Punctuation.kind_of_read? hread
    refine ⟨?_, ?_⟩
    · rw [ho]
      refine iff_of_false TokenKind.noConfusion ?_
      rintro ⟨hu, rfl⟩
      cases hanswer (Option.some.inj hu)
    · rw [Punctuation.divides_iff_of_read? hread]
      exact ⟨fun hu => ⟨hu, hanswer (Option.some.inj hu)⟩, fun hu => hu.1⟩
  · split at h
    · next hfeed =>
      cases h
      have hne : some u ≠ some CodeUnit.slash := by
        rw [Option.some.inj hfeed]
        decide
      exact .of_kind hne rfl TokenKind.noConfusion fun _ => TokenKind.noConfusion
    · cases h

theorem followsAnswer_of_read_slash {rest : Text} {n : Nat}
    (h : read operand (CodeUnit.slash :: rest) = .found x n) :
    x.FollowsAnswer operand (some CodeUnit.slash) := by
  cases operand with
  | false => exact followsAnswer_of_readMark (fun _ => rfl) h
  | true =>
    have hkind : x.kind = .regExp := RegExpLiteral.kind_of_read h
    refine ⟨iff_of_true hkind ⟨rfl, rfl⟩, iff_of_false ?_ fun hfalse => nomatch hfalse.2⟩
    intro hdivides
    obtain ⟨o, ho⟩ := hdivides.exists_kind_eq
    exact nomatch hkind.symm.trans ho

/-- A lexeme that is read is what the answer makes of a slash at the front of the text. -/
theorem followsAnswer_of_read {t : Text} {n : Nat} (h : read operand t = .found x n) :
    x.FollowsAnswer operand t.head? := by
  cases t with
  | nil =>
    cases h
    exact .of_kind nofun rfl TokenKind.noConfusion fun _ => TokenKind.noConfusion
  | cons u rest =>
    by_cases hu : u = CodeUnit.slash
    · subst hu
      exact followsAnswer_of_read_slash h
    · have hfirst : (u :: rest).head? ≠ some CodeUnit.slash := fun heq => hu (Option.some.inj heq)
      simp only [read, hu, decide_false, Bool.false_and] at h
      split at h
      · cases h
        obtain hword | ⟨k, hword⟩ :=
          TokenKind.ofWord_eq ((u :: rest).takeWhile CharClass.nameContinue.has)
        · exact .of_kind hfirst hword TokenKind.noConfusion fun _ => TokenKind.noConfusion
        · exact .of_kind hfirst hword TokenKind.noConfusion fun _ => TokenKind.noConfusion
      · split at h
        · exact .of_kind hfirst (Numeral.kind_of_read h) TokenKind.noConfusion
            fun _ => TokenKind.noConfusion
        · split at h
          · exact .of_kind hfirst (StringLiteral.kind_of_read h) TokenKind.noConfusion
              fun _ => TokenKind.noConfusion
          · exact followsAnswer_of_readMark (fun heq => absurd heq hu) h

end Lexeme

/-- A token is what the answer makes of a slash at its first unit. -/
theorem Cursor.followsAnswer_of_next {source : Source} {c c' : Cursor source} {flags : Flags}
    {t : Token} (h : c.next flags = (.ok t, c')) :
    t.toLexeme.FollowsAnswer flags.operand (source.text.unit? t.start) := by
  obtain ⟨comments, gap, x, n, -, hlexeme, rfl, -⟩ := exists_of_next_eq_ok h
  have hfirst : source.text.unit? (c.advanceBy gap).offset = (c.rest.drop gap).head? := by
    rw [Text.unit?_natCast, ← head?_rest, advanceBy_rest]
  rw [Token.withComments_toLexeme, Token.withComments_start]
  change x.FollowsAnswer flags.operand (source.text.unit? (c.advanceBy gap).offset)
  rw [hfirst]
  exact Lexeme.followsAnswer_of_read hlexeme

/-! ## The rule of this library -/

/-- The kinds of the tokens that complete an operand. -/
def TokenKind.operandEnds : List TokenKind :=
  [.identifier, .number, .string, .regExp, .operator .rightParen, .operator .rightBracket,
    .operator .rightBrace, .operator .increment, .operator .decrement, .keyword .thisWord,
    .keyword .nullWord, .keyword .trueWord, .keyword .falseWord]

theorem TokenKind.completesOperand_iff (k : TokenKind) :
    k.completesOperand = true ↔ k ∈ operandEnds := by
  have hall : ∀ k ∈ all, k.completesOperand = true ↔ k ∈ operandEnds := by decide
  exact hall k k.mem_all

/-- An operand may stand at the beginning, and after a token that completes none. -/
theorem OperandRule.default_eq_true_iff (calls : Nat) (previous : Option Token) :
    default calls previous = true ↔ ∀ p ∈ previous, p.kind ∉ TokenKind.operandEnds := by
  cases previous with
  | none => exact iff_of_true rfl fun p hp => absurd hp (Option.not_mem_none p)
  | some p =>
    rw [default, Option.map_some, expectsOperand, Bool.not_eq_true', ← Bool.not_eq_true,
      TokenKind.completesOperand_iff]
    exact ⟨fun h q hq => Option.some.inj hq ▸ h, fun h => h p rfl⟩

/-! ## Runs -/

/-- The rule is asked before each attempt and told the last token that is no line break, and each
token is what the answer makes of a slash. -/
structure Tokenization.FollowsRule (source : Source) (s : Settings) (run : Tokenization) :
    Prop where
  /-- One question for each token, and one more if the run fails. -/
  length_asked : run.asked.length = run.tokens.length + if run.failure.isSome then 1 else 0
  asked_eq : ∀ i < run.asked.length,
    run.asked[i]? = some (lastSignificant (run.tokens.take i))
  followsAnswer : ∀ i (t : Token), run.tokens[i]? = some t →
    t.toLexeme.FollowsAnswer (s.rule i (lastSignificant (run.tokens.take i)))
      (source.text.unit? t.start)

theorem followsRule_tokenize (source : Source) (s : Settings) :
    (tokenize source s).FollowsRule source s := by
  have hattempts := attempts_tokenize source s
  refine ⟨hattempts.length_asked, fun i hi => hattempts.asked_getElem? hi, fun i t ht => ?_⟩
  obtain ⟨d, d', -, hnext⟩ := hattempts.exists_next_eq_ok (Cursor.inPlace_start source) ht
  have hfollows := Cursor.followsAnswer_of_next hnext
  have hi : i < (tokenize source s).tokens.length := (List.getElem?_eq_some_iff.mp ht).1
  rw [Settings.flags, Settings.answer, List.nil_append, List.length_take,
    Nat.min_eq_left (Nat.le_of_lt hi)] at hfollows
  exact hfollows

/-- In every run the rule is asked once before each attempt, and each slash is what it answers.
With the rule of this library, a slash opens a regular expression at the beginning and after tokens
that complete no operand. -/
theorem tokenize_operandContext (source : Source) (s : Settings) :
    (tokenize source s).FollowsRule source s ∧
      (s.rule = OperandRule.default → ∀ i t, (tokenize source s).tokens[i]? = some t →
        source.text.unit? t.start = some CodeUnit.slash →
          (t.kind = .regExp ↔ ∀ p ∈ lastSignificant ((tokenize source s).tokens.take i),
            p.kind ∉ TokenKind.operandEnds)) := by
  have hfollows := followsRule_tokenize source s
  refine ⟨hfollows, fun hrule i t ht hslash => ?_⟩
  have hanswer := (hfollows.followsAnswer i t ht).isRegExp_iff
  rw [hrule, OperandRule.default_eq_true_iff] at hanswer
  rw [hanswer]
  exact and_iff_right hslash

/-- A division on the line after a name, an assignment that divides, and a regular expression. -/
def slashesOnLines : Source := ⟨"a // b\n/c /= /d/g", by decide +kernel⟩

/-- The run over these lines that scans their ends. -/
def slashesRun : Tokenization := tokenize slashesOnLines { newlines := true }

theorem tokenize_operandContext_slashesOnLines :
    ({ newlines := true } : Settings).rule = OperandRule.default ∧
      ∃ divides expression,
        slashesRun.tokens[2]? = some divides ∧
        slashesOnLines.text.unit? divides.start = some CodeUnit.slash ∧ divides.kind ≠ .regExp ∧
        slashesRun.tokens[5]? = some expression ∧
        slashesOnLines.text.unit? expression.start = some CodeUnit.slash ∧
        ∀ p ∈ lastSignificant (slashesRun.tokens.take 5), p.kind ∉ TokenKind.operandEnds := by
  obtain ⟨-, hcontext⟩ := tokenize_operandContext slashesOnLines { newlines := true }
  obtain ⟨divides, hdivides⟩ : ∃ t, slashesRun.tokens[2]? = some t :=
    Option.isSome_iff_exists.mp (by decide +kernel)
  obtain ⟨expression, hexpression⟩ : ∃ t, slashesRun.tokens[5]? = some t :=
    Option.isSome_iff_exists.mp (by decide +kernel)
  have hslash : ∀ i ∈ [2, 5], ∀ t ∈ slashesRun.tokens[i]?,
      slashesOnLines.text.unit? t.start = some CodeUnit.slash := by decide +kernel
  have hslash_divides := hslash 2 (by decide) _ hdivides
  have hslash_expression := hslash 5 (by decide) _ hexpression
  have hname : ¬ ∀ p ∈ lastSignificant (slashesRun.tokens.take 2),
      p.kind ∉ TokenKind.operandEnds := by decide +kernel
  have hkind : ∀ t ∈ slashesRun.tokens[5]?, t.kind = .regExp := by decide +kernel
  refine ⟨rfl, divides, expression, hdivides, hslash_divides, ?_, hexpression,
    hslash_expression, ?_⟩
  · exact fun hregExp => hname ((hcontext rfl 2 _ hdivides hslash_divides).mp hregExp)
  · exact (hcontext rfl 5 _ hexpression hslash_expression).mp (hkind _ hexpression)

end ScriptScanner
