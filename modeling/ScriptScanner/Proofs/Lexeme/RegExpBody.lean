import ScriptScanner.Proofs.Lexeme.Broken
import ScriptScanner.Proofs.Lexeme.Longest
set_option autoImplicit false

/-!
# The grammar of regular expressions

The body of a regular expression is a sequence of items: plain units, escapes, and classes, which
are sequences of plain units and escapes in brackets.  Slashes and brackets mean something only as
plain units, and which of them do depends on whether a class is open.  From its opening slash on,
every text has a body and a closing slash, or it has a body and then comes to the end of its line,
in a class or outside.  Reading finds out which of the three it is, and it finds that body.
-/

namespace ScriptScanner

/-- The text is a sequence of items, one after the other. -/
inductive Text.IsSequence (Item : Text → Prop) : Text → Prop where
  | nil : IsSequence Item []
  | cons {x t : Text} (hitem : Item x) (hrest : IsSequence Item t) : IsSequence Item (x ++ t)

theorem Text.IsSequence.append {Item : Text → Prop} {s t : Text} (hs : IsSequence Item s)
    (ht : IsSequence Item t) : IsSequence Item (s ++ t) := by
  induction hs with
  | nil => exact ht
  | cons hitem _ ih =>
    rw [List.append_assoc]
    exact .cons hitem ih

theorem Text.isSequence_singleton {Item : Text → Prop} {x : Text} (h : Item x) :
    IsSequence Item x := by
  have hlast : IsSequence Item (x ++ []) := .cons h .nil
  rwa [List.append_nil] at hlast

namespace RegExpLiteral

open Text (IsSequence isSequence_singleton)

/-! ## Items -/

/-- The text is a plain unit, which is none of the special ones, or an escape: a backslash and the
unit behind it.  Neither has a line feed. -/
inductive Plain (special : List CodeUnit) : Text → Prop where
  | unit {u : CodeUnit} (hspecial : u ∉ special) (hslash : u ≠ CodeUnit.backslash)
      (hfeed : u ≠ CodeUnit.lineFeed) : Plain special [u]
  | escape {u : CodeUnit} (hfeed : u ≠ CodeUnit.lineFeed) : Plain special [CodeUnit.backslash, u]

/-- The units that are special while a class is open, or while none is. -/
def special (inClass : Bool) : List CodeUnit :=
  if inClass then [CodeUnit.rightBracket] else [CodeUnit.slash, CodeUnit.leftBracket]

/-- The text may stand between the brackets of a class. -/
abbrev IsClassBody : Text → Prop := IsSequence (Plain (special true))

/-- The text is a plain unit, an escape or a class. -/
inductive Item : Text → Prop where
  | plain {x : Text} (h : Plain (special false) x) : Item x
  | charClass {members : Text} (h : IsClassBody members) :
      Item (CodeUnit.leftBracket :: (members ++ [CodeUnit.rightBracket]))

/-- The text may stand between the slashes of a regular expression. -/
abbrev IsBody : Text → Prop := IsSequence Item

/-- The input or its line ends here, or behind a backslash that stands here. -/
inductive LineEnds : Text → Prop where
  | here {t : Text} (h : ∀ u ∈ t.head?, u = CodeUnit.lineFeed) : LineEnds t
  | behindBackslash {t : Text} (h : ∀ u ∈ t.head?, u = CodeUnit.lineFeed) :
      LineEnds (CodeUnit.backslash :: t)

/-- Behind a body, and perhaps in a class that is opened there, the line ends. -/
inductive BreaksOff : (inClass : Bool) → Text → Prop where
  | outside {body tail : Text} (hbody : IsBody body) (hends : LineEnds tail) :
      BreaksOff false (body ++ tail)
  | inClass {body members tail : Text} (hbody : IsBody body) (hmembers : IsClassBody members)
      (hends : LineEnds tail) :
      BreaksOff true (body ++ CodeUnit.leftBracket :: (members ++ tail))

/-! ## Reading along the grammar -/

variable {inClass : Bool} {passed : Nat} {x body members tail : Text}

theorem readBody_of_plain (h : Plain (special inClass) x) (passed : Nat) (t : Text) :
    readBody inClass passed (x ++ t) = readBody inClass (passed + x.length) t := by
  cases h with
  | unit hspecial hslash hfeed =>
    rw [List.singleton_append, readBody.eq_def]
    cases inClass with
    | true =>
      simp only [special, if_true, List.mem_singleton] at hspecial
      simp [hfeed, hslash, hspecial]
    | false =>
      simp only [special, Bool.false_eq_true, if_false, List.mem_cons, List.not_mem_nil, or_false,
        not_or] at hspecial
      simp [hfeed, hslash, hspecial.1, hspecial.2]
  | escape hfeed =>
    rw [List.cons_append, List.singleton_append, readBody, if_neg (by decide), if_pos rfl]
    exact if_neg hfeed

/-- If reading passes over each item, it passes over a sequence of items. -/
theorem readBody_of_isSequence {Item : Text → Prop}
    (hitem : ∀ x, Item x → ∀ passed t,
      readBody inClass passed (x ++ t) = readBody inClass (passed + x.length) t)
    (h : IsSequence Item x) (passed : Nat) (t : Text) :
    readBody inClass passed (x ++ t) = readBody inClass (passed + x.length) t := by
  induction h generalizing passed with
  | nil => rfl
  | cons hx _ ih => rw [List.append_assoc, hitem _ hx, ih, List.length_append, Nat.add_assoc]

theorem readBody_of_isClassBody (h : IsClassBody members) (passed : Nat) (t : Text) :
    readBody true passed (members ++ t) = readBody true (passed + members.length) t :=
  readBody_of_isSequence (fun _ => readBody_of_plain) h passed t

theorem readBody_leftBracket (passed : Nat) (t : Text) :
    readBody false passed (CodeUnit.leftBracket :: t) = readBody true (passed + 1) t := by
  rw [readBody.eq_def]
  rfl

theorem readBody_rightBracket (passed : Nat) (t : Text) :
    readBody true passed (CodeUnit.rightBracket :: t) = readBody false (passed + 1) t := by
  rw [readBody.eq_def]
  rfl

theorem readBody_slash (passed : Nat) (t : Text) :
    readBody false passed (CodeUnit.slash :: t) = .found (passed - 1) (passed + 1) := by
  rw [readBody.eq_def]
  rfl

theorem readBody_of_item (h : Item x) (passed : Nat) (t : Text) :
    readBody false passed (x ++ t) = readBody false (passed + x.length) t := by
  cases h with
  | plain h => exact readBody_of_plain h passed t
  | charClass h =>
    rw [List.cons_append, List.append_assoc, List.singleton_append, readBody_leftBracket,
      readBody_of_isClassBody h, readBody_rightBracket]
    congr 1
    simp only [List.length_cons, List.length_append, List.length_nil]
    omega

theorem readBody_of_isBody (h : IsBody body) (passed : Nat) (t : Text) :
    readBody false passed (body ++ t) = readBody false (passed + body.length) t :=
  readBody_of_isSequence (fun _ => readBody_of_item) h passed t

/-- Where the line ends, the literal is broken. -/
theorem exists_readBody_of_lineEnds (inClass : Bool) (passed : Nat) (h : LineEnds tail) :
    ∃ n, readBody inClass passed tail = .broken (endFault inClass) 0 n := by
  cases h with
  | here h =>
    cases tail with
    | nil => exact ⟨passed, by rw [readBody]⟩
    | cons u rest =>
      obtain rfl := h u rfl
      exact ⟨passed, by rw [readBody.eq_def]; rfl⟩
  | @behindBackslash tail h =>
    cases tail with
    | nil => exact ⟨passed + 1, by rw [readBody.eq_def]; rfl⟩
    | cons u rest =>
      obtain rfl := h u rfl
      exact ⟨passed + 1, by rw [readBody.eq_def]; rfl⟩

theorem exists_readBody_of_breaksOff {t : Text} (h : BreaksOff inClass t) (passed : Nat) :
    ∃ n, readBody false passed t = .broken (endFault inClass) 0 n := by
  cases h with
  | outside hbody hends =>
    rw [readBody_of_isBody hbody]
    exact exists_readBody_of_lineEnds false _ hends
  | inClass hbody hmembers hends =>
    rw [readBody_of_isBody hbody, readBody_leftBracket, readBody_of_isClassBody hmembers]
    exact exists_readBody_of_lineEnds true _ hends

/-! ## Every text is covered -/

/-- Plain units and escapes go on up to a special unit or to the end of the line. -/
theorem exists_isSequence_plain (special : List CodeUnit) (t : Text) :
    ∃ x tail, t = x ++ tail ∧ IsSequence (Plain special) x ∧
      (LineEnds tail ∨ ∃ u ∈ special, ∃ rest, tail = u :: rest) := by
  match t with
  | [] => exact ⟨[], [], rfl, .nil, .inl (.here nofun)⟩
  | u :: rest =>
    by_cases hfeed : u = CodeUnit.lineFeed
    · refine ⟨[], u :: rest, rfl, .nil, .inl (.here fun v hv => ?_)⟩
      exact (Option.some.inj hv).symm.trans hfeed
    · by_cases hspecial : u ∈ special
      · exact ⟨[], u :: rest, rfl, .nil, .inr ⟨u, hspecial, rest, rfl⟩⟩
      · by_cases hslash : u = CodeUnit.backslash
        · subst hslash
          match rest with
          | [] => exact ⟨[], [CodeUnit.backslash], rfl, .nil, .inl (.behindBackslash nofun)⟩
          | v :: rest =>
            by_cases hv : v = CodeUnit.lineFeed
            · refine ⟨[], _, rfl, .nil, .inl (.behindBackslash fun w hw => ?_)⟩
              exact (Option.some.inj hw).symm.trans hv
            · obtain ⟨x, tail, rfl, hx, htail⟩ := exists_isSequence_plain special rest
              exact ⟨[CodeUnit.backslash, v] ++ x, tail, rfl, .cons (.escape hv) hx, htail⟩
        · obtain ⟨x, tail, rfl, hx, htail⟩ := exists_isSequence_plain special rest
          exact ⟨[u] ++ x, tail, rfl, .cons (.unit hspecial hslash hfeed) hx, htail⟩
  termination_by t.length

theorem isBody_of_plain (h : IsSequence (Plain (special false)) x) : IsBody x := by
  induction h with
  | nil => exact .nil
  | cons hx _ ih => exact .cons (.plain hx) ih

theorem BreaksOff.append {t : Text} (hbody : IsBody body) (h : BreaksOff inClass t) :
    BreaksOff inClass (body ++ t) := by
  cases h with
  | outside hbody' hends =>
    rw [← List.append_assoc]
    exact .outside (hbody.append hbody') hends
  | inClass hbody' hmembers hends =>
    rw [← List.append_assoc]
    exact .inClass (hbody.append hbody') hmembers hends

/-- Behind an opening slash a body is closed by a slash, or the line ends before that. -/
theorem exists_isBody (t : Text) :
    (∃ body after, IsBody body ∧ t = body ++ CodeUnit.slash :: after) ∨
      ∃ inClass, BreaksOff inClass t := by
  induction hn : t.length using Nat.strong_induction_on generalizing t with
  | _ n ih =>
    obtain ⟨x, tail, rfl, hx, hends | ⟨u, hu, rest, rfl⟩⟩ :=
      exists_isSequence_plain (special false) t
    · exact .inr ⟨false, .outside (isBody_of_plain hx) hends⟩
    · simp only [special, Bool.false_eq_true, if_false, List.mem_cons, List.not_mem_nil,
        or_false] at hu
      obtain rfl | rfl := hu
      · exact .inl ⟨x, rest, isBody_of_plain hx, rfl⟩
      · obtain ⟨members, tail, rfl, hmembers, hends | ⟨v, hv, rest, rfl⟩⟩ :=
          exists_isSequence_plain (special true) rest
        · exact .inr ⟨true, .inClass (isBody_of_plain hx) hmembers hends⟩
        · -- the class is closed, and a shorter text stands behind it
          obtain rfl := List.mem_singleton.mp hv
          have hshorter : rest.length < n := by
            simp only [← hn, List.length_append, List.length_cons]
            omega
          have hclosed :
              IsBody (x ++ CodeUnit.leftBracket :: (members ++ [CodeUnit.rightBracket])) :=
            (isBody_of_plain hx).append (isSequence_singleton (.charClass hmembers))
          have hcut : x ++ CodeUnit.leftBracket :: (members ++ CodeUnit.rightBracket :: rest) =
              x ++ CodeUnit.leftBracket :: (members ++ [CodeUnit.rightBracket]) ++ rest := by
            simp
          rw [hcut]
          obtain ⟨body, after, hbody, rfl⟩ | ⟨inClass, hbreaks⟩ := ih _ hshorter rest rfl
          · exact .inl ⟨_, after, hclosed.append hbody, (List.append_assoc _ _ _).symm⟩
          · exact .inr ⟨inClass, hbreaks.append hclosed⟩

/-- A body in slashes is read as that body, with the flags behind it. -/
theorem read_of_isBody {flags after : Text} (hbody : IsBody body)
    (hflags : Text.LongestRun CharClass.regExpFlag flags after) :
    read (CodeUnit.slash :: (body ++ CodeUnit.slash :: after)) =
      .found (lexeme body flags) (body.length + flags.length + 2) := by
  have hread : readBody false 1 (body ++ CodeUnit.slash :: after) =
      .found (1 + body.length - 1) (1 + body.length + 1) := by
    rw [readBody_of_isBody hbody, readBody_slash]
  rw [read_of_readBody hread rfl rfl, ← Text.longestRun_iff.mp hflags]
  congr 1
  simp only [List.length_cons, List.length_append]
  omega

/-- A text has one body before a closing slash at most: the one that is read. -/
theorem IsBody.unique {body' after after' : Text} (h : IsBody body) (h' : IsBody body')
    (heq : body ++ CodeUnit.slash :: after = body' ++ CodeUnit.slash :: after') : body = body' := by
  have hread := read_of_isBody h (Text.longestRun_takeWhile _ after)
  rw [heq, read_of_isBody h' (Text.longestRun_takeWhile _ after')] at hread
  obtain ⟨hlexeme, -⟩ := Reading.found.inj hread
  exact (Content.text.inj (congrArg (fun l => l.content) hlexeme)).symm

theorem endFault_injective {inClass inClass' : Bool} (h : endFault inClass = endFault inClass') :
    inClass = inClass' := by
  revert h
  cases inClass <;> cases inClass' <;> decide

theorem exists_read_of_breaksOff {t : Text} (h : BreaksOff inClass t) :
    ∃ n, read (CodeUnit.slash :: t) = .broken (endFault inClass) 0 n := by
  obtain ⟨n, hn⟩ := exists_readBody_of_breaksOff h 1
  exact ⟨n, by rw [read_cons, hn]⟩

end RegExpLiteral

/-! ## Tokens -/

namespace Cursor

open RegExpLiteral

variable {source : Source} {c : Cursor source} {rest : Text}

/-- The token of a regular expression with this body and these flags. -/
def regExpToken (c : Cursor source) (body flags : Text) : Token :=
  { kind := .regExp, content := .text body, variant := flags, toPosition := c.toPosition,
    start := c.offset, stop := (c.offset + (body.length + flags.length + 2) : Nat) }

theorem token_of_isBody {body flags after : Text} (h : c.rest = CodeUnit.slash :: rest)
    (hbody : IsBody body) (hrest : rest = body ++ CodeUnit.slash :: after)
    (hflags : Text.LongestRun CharClass.regExpFlag flags after) :
    c.token (RegExpLiteral.read c.rest) =
      (.ok (c.regExpToken body flags), c.advanceBy (body.length + flags.length + 2)) := by
  have hlength : body.length + flags.length + 2 ≤ c.rest.length := by
    have hle := hflags.isFront.length_le
    rw [h, hrest, List.length_cons, List.length_append, List.length_cons]
    omega
  rw [h, hrest, read_of_isBody hbody hflags, token_found hlength]
  rfl

theorem exists_token_of_breaksOff {inClass : Bool} (h : c.rest = CodeUnit.slash :: rest)
    (hbreaks : BreaksOff inClass rest) :
    ∃ c', c.token (RegExpLiteral.read c.rest) =
      (.error ⟨endFault inClass, c.location⟩, c') := by
  obtain ⟨n, hn⟩ := exists_read_of_breaksOff hbreaks
  refine ⟨c.advanceBy n, ?_⟩
  rw [h, hn, token, advanceBy_zero]

/-- At a slash a regular expression is read exactly if a body and a closing slash follow.  The body
is then the only one, the token has it as written, together with all flags behind it, and it ends
with them.  Otherwise the line ends, and that is reported at the slash: as a class that is not
closed or as an expression that is not, whichever it is. -/
theorem token_regExp_grammar (h : c.rest = CodeUnit.slash :: rest) :
    ((∃ t c', c.token (RegExpLiteral.read c.rest) = (.ok t, c')) ↔
        ∃ body after, IsBody body ∧ rest = body ++ CodeUnit.slash :: after) ∧
      (∀ body flags after, IsBody body → rest = body ++ CodeUnit.slash :: after →
        Text.LongestRun CharClass.regExpFlag flags after →
          c.token (RegExpLiteral.read c.rest) =
            (.ok (c.regExpToken body flags), c.advanceBy (body.length + flags.length + 2))) ∧
      (∀ body after body' after', IsBody body → IsBody body' →
        rest = body ++ CodeUnit.slash :: after → rest = body' ++ CodeUnit.slash :: after' →
          body = body') ∧
      (∀ inClass, (∃ c', c.token (RegExpLiteral.read c.rest) =
        (.error ⟨endFault inClass, c.location⟩, c')) ↔ BreaksOff inClass rest) ∧
      ((¬ ∃ body after, IsBody body ∧ rest = body ++ CodeUnit.slash :: after) →
        ∃ inClass, BreaksOff inClass rest) := by
  have hfound : ∀ body after, IsBody body → rest = body ++ CodeUnit.slash :: after →
      ∃ t c', c.token (RegExpLiteral.read c.rest) = (.ok t, c') := fun body after hbody hrest =>
    ⟨_, _, token_of_isBody h hbody hrest (Text.longestRun_takeWhile _ after)⟩
  refine ⟨⟨?_, ?_⟩, ?_, ?_, fun inClass => ⟨?_, exists_token_of_breaksOff h⟩, ?_⟩
  · rintro ⟨t, c', htoken⟩
    obtain hbody | ⟨inClass, hbreaks⟩ := exists_isBody rest
    · exact hbody
    · obtain ⟨d, herror⟩ := exists_token_of_breaksOff h hbreaks
      cases htoken.symm.trans herror
  · rintro ⟨body, after, hbody, hrest⟩
    exact hfound body after hbody hrest
  · intro body flags after hbody hrest hflags
    exact token_of_isBody h hbody hrest hflags
  · intro body after body' after' hbody hbody' hrest hrest'
    exact hbody.unique hbody' (hrest.symm.trans hrest')
  · rintro ⟨c', herror⟩
    obtain ⟨body, after, hbody, hrest⟩ | ⟨inClass', hbreaks⟩ := exists_isBody rest
    · obtain ⟨t, d, htoken⟩ := hfound body after hbody hrest
      cases htoken.symm.trans herror
    · obtain ⟨d, herror'⟩ := exists_token_of_breaksOff h hbreaks
      have hfaults : endFault inClass = endFault inClass' := congrArg LocatedFault.fault
        (Except.error.inj (congrArg Prod.fst (herror.symm.trans herror')))
      exact endFault_injective hfaults ▸ hbreaks
  · intro hnone
    exact (exists_isBody rest).resolve_left hnone

/-- A class with a slash and an escaped bracket in it, and flags before another letter; then a class
that ends with its line, behind a backslash. -/
def slashesInClasses : Source := ⟨"/[/\\]]/gia /[\\\n]/", by decide +kernel⟩

theorem token_regExp_grammar_slashesInClasses :
    (start slashesInClasses).token (RegExpLiteral.read slashesInClasses.text) =
        (.ok ((start slashesInClasses).regExpToken "[/\\]]" "gi"),
          (start slashesInClasses).advanceBy 9) ∧
      ∃ c', ((start slashesInClasses).advanceBy 11).token
          (RegExpLiteral.read (slashesInClasses.text.drop 11)) =
        (.error ⟨.unterminatedClass, ⟨⟨1, 12⟩, 11⟩⟩, c') := by
  have hfirst : (start slashesInClasses).rest =
      CodeUnit.slash :: slashesInClasses.text.drop 1 := by decide +kernel
  have hmembers : IsClassBody
      ([CodeUnit.slash] ++ ([CodeUnit.backslash, CodeUnit.rightBracket] ++ [])) :=
    .cons (.unit (by decide) (by decide) (by decide)) (.cons (.escape (by decide)) .nil)
  have hbody : IsBody (Text.ofString "[/\\]]") :=
    Text.isSequence_singleton (.charClass hmembers)
  have hrest : slashesInClasses.text.drop 1 =
      Text.ofString "[/\\]]" ++ CodeUnit.slash :: slashesInClasses.text.drop 7 := by decide +kernel
  have hflags : Text.LongestRun CharClass.regExpFlag "gi" (slashesInClasses.text.drop 7) :=
    Text.longestRun_iff.mpr (by decide +kernel)
  have hsecond : ((start slashesInClasses).advanceBy 11).rest =
      CodeUnit.slash :: slashesInClasses.text.drop 12 := by decide +kernel
  have hbreaks : BreaksOff true (slashesInClasses.text.drop 12) := by
    have hcut : slashesInClasses.text.drop 12 = [] ++ CodeUnit.leftBracket ::
        ([] ++ CodeUnit.backslash :: slashesInClasses.text.drop 14) := by decide +kernel
    rw [hcut]
    have hhead : (slashesInClasses.text.drop 14).head? = some CodeUnit.lineFeed := by
      decide +kernel
    exact .inClass .nil .nil (.behindBackslash fun u hu => Option.some.inj (hu.symm.trans hhead))
  exact ⟨(token_regExp_grammar hfirst).2.1 _ _ _ hbody hrest hflags,
    ((token_regExp_grammar hsecond).2.2.2.1 true).mpr hbreaks⟩

end Cursor

end ScriptScanner
