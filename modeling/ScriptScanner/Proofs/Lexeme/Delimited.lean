import ScriptScanner.Lexeme.RegExpLiteral
import ScriptScanner.Lexeme.StringLiteral
import ScriptScanner.Proofs.Lexeme.Replacement
set_option autoImplicit false

/-!
# What comes after a string or a regular expression

A literal with a closing mark is read up to that mark, and no further.  In a string the escapes look
ahead for digits, but no closing quote is a digit, so none of them sees what comes after the quote.
A regular expression takes flags after its closing slash, and those end like a word.
-/

namespace ScriptScanner

/-! ## Escapes -/

namespace Escape

variable {quote : CodeUnit} (x : Text)

/-- A cut of some length ends before a unit of the text, or that unit is in it. -/
theorem take_append_cons (n : Nat) (quote : CodeUnit) :
    (∀ after, (x ++ quote :: after).take n = x.take n) ∨
      ∀ after, ∃ more, (x ++ quote :: after).take n = x ++ quote :: more := by
  rcases Nat.lt_or_ge x.length n with hn | hn
  · obtain ⟨k, rfl⟩ := Nat.exists_eq_add_of_lt hn
    refine .inr fun after => ⟨after.take k, ?_⟩
    rw [Nat.add_assoc, List.take_length_add_append, List.take_succ_cons]
  · exact .inl fun after => List.take_append_of_le_length hn

/-- The digits that an octal escape takes come before the quote. -/
theorem octalDigits_append_cons (hq : CharClass.octalDigit.has quote = false) (first : CodeUnit)
    (after after' : Text) :
    octalDigits first (x ++ quote :: after) = octalDigits first (x ++ quote :: after') := by
  rw [octalDigits, octalDigits]
  congr 1
  rcases take_append_cons x (if first ≤ 0x33 then 2 else 1) quote with hbefore | hover
  · rw [hbefore, hbefore]
  · obtain ⟨more, hmore⟩ := hover after
    obtain ⟨more', hmore'⟩ := hover after'
    have hstop : ∀ tail, (quote :: tail).takeWhile CharClass.octalDigit.has = [] := by
      intro tail
      rw [List.takeWhile_cons, hq]
      rfl
    rw [hmore, hmore', List.takeWhile_append, List.takeWhile_append, hstop, hstop]

/-- No escape looks beyond the quote that closes the string. -/
theorem read_append_cons (hhex : CharClass.hexDigit.has quote = false)
    (hoctal : CharClass.octalDigit.has quote = false) (u : CodeUnit) (after after' : Text) :
    read (u :: (x ++ quote :: after)) = read (u :: (x ++ quote :: after')) := by
  have hhead : (x ++ quote :: after).head? = (x ++ quote :: after').head? := by
    cases x with
    | nil => rfl
    | cons v x => rfl
  simp only [read, hhead, octalDigits_append_cons x hoctal u after after']
  cases control? u with
  | some c => rfl
  | none =>
    cases hexDigits? u with
    | none => rfl
    | some n =>
      rcases take_append_cons x n quote with hbefore | hover
      · simp only [hbefore]
      · -- the quote is among the units where the digits should be, so this is no escape of digits
        have hnone : ∀ tail, ((x ++ quote :: tail).take n).all CharClass.hexDigit.has = false := by
          intro tail
          obtain ⟨more, hmore⟩ := hover tail
          rw [hmore, List.all_append, List.all_cons, hhex, Bool.false_and, Bool.and_false]
        simp only [hnone, Bool.and_false]
        rfl

/-- An escape takes the unit after the backslash, whatever it takes besides. -/
theorem pos_of_read (u : CodeUnit) (rest : Text) : 0 < (read (u :: rest)).2 := by
  unfold read
  split
  · contradiction
  · split
    · exact Nat.zero_lt_one
    · simp only
      split
      · exact Nat.zero_lt_succ _
      · exact Nat.zero_lt_one
    · split
      · exact Nat.zero_lt_one
      · split
        · simp only
          split
          · exact Nat.zero_lt_two
          · exact Nat.zero_lt_one
        · split
          · exact Nat.zero_lt_succ _
          · exact Nat.zero_lt_one

/-- An escape before a text that goes on to the quote is the same before any other such text. -/
theorem exists_of_read (hhex : CharClass.hexDigit.has quote = false)
    (hoctal : CharClass.octalDigit.has quote = false) {t body after meaning : Text} {n : Nat}
    (ht : t ≠ []) (h : read t = (meaning, n)) (hcut : t.drop n = body ++ quote :: after) :
    ∃ escape, t = escape ++ (body ++ quote :: after) ∧ n = escape.length ∧ escape ≠ [] ∧
      ∀ after', read (escape ++ (body ++ quote :: after')) = (meaning, n) := by
  obtain ⟨u, rest, rfl⟩ := List.exists_cons_of_ne_nil ht
  have hpos := pos_of_read u rest
  rw [h] at hpos
  obtain ⟨k, rfl⟩ := Nat.exists_eq_succ_of_ne_zero (Nat.ne_of_gt hpos)
  rw [List.drop_succ_cons] at hcut
  have hwhole : rest = rest.take k ++ body ++ quote :: after := by
    rw [List.append_assoc, ← hcut, List.take_append_drop]
  refine ⟨u :: rest.take k, ?_, ?_, List.cons_ne_nil _ _, fun after' => ?_⟩
  · rw [List.cons_append, ← List.append_assoc, ← hwhole]
  · have hlength := congrArg List.length hcut
    rw [List.length_drop, List.length_append, List.length_cons] at hlength
    rw [List.length_cons, List.length_take]
    omega
  · rw [List.cons_append, ← List.append_assoc, read_append_cons _ hhex hoctal u after' after,
      ← hwhole, h]

end Escape

/-! ## Strings -/

namespace StringLiteral

variable {quote : CodeUnit} {decoded : Text} {passed : Nat}

theorem readBody_of_escape {t meaning : Text} {n : Nat} (hquote : CodeUnit.backslash ≠ quote)
    (ht : t ≠ []) (h : Escape.read t = (meaning, n)) :
    readBody quote decoded passed (CodeUnit.backslash :: t) =
      readBody quote (meaning.reverse ++ decoded) (passed + 1 + n) (t.drop n) := by
  have hsome : ¬ t.isEmpty = true := fun hempty => ht (List.isEmpty_iff.mp hempty)
  rw [readBody, if_neg (by decide), if_neg hquote, if_pos rfl, if_neg hsome, h]

/-- A string ends with its quote, and what comes after the quote has no part in it. -/
theorem exists_of_readBody (hhex : CharClass.hexDigit.has quote = false)
    (hoctal : CharClass.octalDigit.has quote = false) {t : Text} {n : Nat} {l : Lexeme}
    (h : readBody quote decoded passed t = .found l n) :
    ∃ body after, t = body ++ quote :: after ∧ n = passed + body.length + 1 ∧
      ∀ after', readBody quote decoded passed (body ++ quote :: after') = .found l n := by
  fun_induction readBody quote decoded passed t with
  | case3 decoded passed rest hfeed =>
    cases h
    refine ⟨[], rest, rfl, rfl, fun after' => ?_⟩
    rw [List.nil_append, readBody, if_neg hfeed, if_pos rfl]
  | case5 decoded passed rest hsome meaning k hescape hfeed hquote ih =>
    have hrest : rest ≠ [] := fun hnil => hsome (List.isEmpty_iff.mpr hnil)
    obtain ⟨body, after, hcut, rfl, hbody⟩ := ih h
    obtain ⟨escape, rfl, rfl, hne, hread⟩ :=
      Escape.exists_of_read hhex hoctal hrest hescape hcut
    refine ⟨CodeUnit.backslash :: (escape ++ body), after, ?_, ?_, fun after' => ?_⟩
    · rw [List.cons_append, List.append_assoc]
    · rw [List.length_cons, List.length_append]
      omega
    · have hsome' : escape ++ (body ++ quote :: after') ≠ [] :=
        List.append_ne_nil_of_left_ne_nil hne _
      rw [List.cons_append, List.append_assoc, readBody_of_escape hquote hsome' (hread after'),
        List.drop_left, hbody]
  | case6 decoded passed u rest hfeed hquote hslash ih =>
    obtain ⟨body, after, rfl, rfl, hbody⟩ := ih h
    refine ⟨u :: body, after, rfl, ?_, fun after' => ?_⟩
    · rw [List.length_cons]
      omega
    · rw [List.cons_append, readBody, if_neg hfeed, if_neg hquote, if_neg hslash, hbody]
  | _ => cases h

theorem exists_finds {quote : CodeUnit} {t : Text} {l : Lexeme} {n : Nat}
    (hquote : quote = CodeUnit.doubleQuote ∨ quote = CodeUnit.singleQuote)
    (h : read (quote :: t) = .found l n) :
    ∃ x after, quote :: t = x ++ after ∧ n = x.length ∧ Finds read l x after := by
  have hplain : CharClass.hexDigit.has quote = false ∧ CharClass.octalDigit.has quote = false := by
    rcases hquote with rfl | rfl
    · decide
    · decide
  obtain ⟨body, after, rfl, rfl, hbody⟩ := exists_of_readBody hplain.1 hplain.2 h
  have hlength : (quote :: (body ++ [quote])).length = 1 + body.length + 1 := by
    rw [List.length_cons, List.length_append, List.length_singleton, Nat.add_comm 1]
  refine ⟨quote :: (body ++ [quote]), after, ?_, hlength.symm, fun after' _ => ?_⟩
  · rw [List.cons_append, List.append_assoc, List.singleton_append]
  · rw [List.cons_append, List.append_assoc, List.singleton_append, hlength]
    exact hbody after'

end StringLiteral

/-! ## Regular expressions -/

namespace RegExpLiteral

/-- The body ends before a slash, and what comes after the slash has no part in it. -/
def EndsAtSlash (inClass : Bool) (passed k n : Nat) (t : Text) : Prop :=
  ∃ body after, t = body ++ CodeUnit.slash :: after ∧ n = passed + body.length + 1 ∧
    k = passed + body.length - 1 ∧
    ∀ after', readBody inClass passed (body ++ CodeUnit.slash :: after') = .found k n

/-- Units that are always passed over do not change where the body ends. -/
theorem EndsAtSlash.append {inClass inClass' : Bool} {passed k n : Nat} {t : Text} (units : Text)
    (hpass : ∀ t', readBody inClass passed (units ++ t') =
      readBody inClass' (passed + units.length) t')
    (h : EndsAtSlash inClass' (passed + units.length) k n t) :
    EndsAtSlash inClass passed k n (units ++ t) := by
  obtain ⟨body, after, rfl, rfl, rfl, hbody⟩ := h
  refine ⟨units ++ body, after, (List.append_assoc _ _ _).symm, ?_, ?_, fun after' => ?_⟩
  · rw [List.length_append, Nat.add_assoc passed]
  · rw [List.length_append, Nat.add_assoc passed]
  · rw [List.append_assoc, hpass, hbody]

theorem endsAtSlash_of_readBody {inClass : Bool} {passed k n : Nat} {t : Text}
    (h : readBody inClass passed t = .found k n) : EndsAtSlash inClass passed k n t := by
  fun_induction readBody inClass passed t with
  | case5 inClass passed v rest hv hfeed ih =>
    refine .append [CodeUnit.backslash, v] (fun t' => ?_) (ih h)
    rw [List.cons_append, List.singleton_append, readBody, if_neg hfeed, if_pos rfl]
    exact if_neg hv
  | case6 passed rest hfeed hslash ih =>
    refine .append [CodeUnit.rightBracket] (fun t' => ?_) (ih h)
    rw [List.singleton_append, readBody.eq_def]
    rfl
  | case7 passed u rest hfeed hslash hbracket ih =>
    refine .append [u] (fun t' => ?_) (ih h)
    rw [List.singleton_append, readBody.eq_def]
    simp only [hfeed, hslash, hbracket, if_false, if_true]
    rfl
  | case8 inClass passed rest hfeed hslash hclass =>
    cases h
    refine ⟨[], rest, rfl, rfl, rfl, fun after' => ?_⟩
    rw [List.nil_append, readBody.eq_def]
    simp only [hfeed, hslash, hclass, if_false, if_true]
    rfl
  | case9 inClass passed rest hfeed hslash hclass hclose ih =>
    refine .append [CodeUnit.leftBracket] (fun t' => ?_) (ih h)
    rw [List.singleton_append, readBody.eq_def]
    simp only [hfeed, hslash, hclass, hclose, if_false, if_true]
    rfl
  | case10 inClass passed u rest hfeed hslash hclass hclose hopen ih =>
    refine .append [u] (fun t' => ?_) (ih h)
    rw [List.singleton_append, readBody.eq_def]
    simp only [hfeed, hslash, hclass, hclose, hopen, if_false]
    rfl
  | _ => cases h

/-- The first unit has no part in the body. -/
theorem read_cons (opening : CodeUnit) (rest : Text) :
    read (opening :: rest) =
      match readBody false 1 rest with
      | .found body closed =>
          let flags := ((opening :: rest).drop closed).takeWhile CharClass.regExpFlag.has
          .found (lexeme (rest.take body) flags) (closed + flags.length)
      | .broken fault site n => .broken fault site n := by
  have hfirst : min 1 (opening :: rest).length = 1 :=
    Nat.min_eq_left (Nat.succ_le_succ (Nat.zero_le _))
  rw [read, hfirst]
  rfl

/-- What is read is the body and the flags. -/
theorem read_of_readBody {opening : CodeUnit} {body after : Text} {k n : Nat}
    (h : readBody false 1 (body ++ CodeUnit.slash :: after) = .found k n)
    (hk : k = 1 + body.length - 1) (hn : n = 1 + body.length + 1) :
    read (opening :: (body ++ CodeUnit.slash :: after)) =
      .found (lexeme body (after.takeWhile CharClass.regExpFlag.has))
        (opening :: (body ++ CodeUnit.slash ::
          after.takeWhile CharClass.regExpFlag.has)).length := by
  obtain rfl : k = body.length := by omega
  obtain rfl : n = (body ++ [CodeUnit.slash]).length + 1 := by
    rw [List.length_append, List.length_singleton]
    omega
  have hclosed : body ++ CodeUnit.slash :: after = body ++ [CodeUnit.slash] ++ after :=
    List.append_cons body _ after
  have hflags :
      (body ++ CodeUnit.slash :: after).drop (body ++ [CodeUnit.slash]).length = after := by
    rw [hclosed, List.drop_left]
  rw [read_cons, h]
  simp only [List.drop_succ_cons, List.take_left, hflags]
  congr 1
  simp only [List.length_cons, List.length_append, List.length_nil]
  omega

theorem exists_finds {t : Text} {l : Lexeme} {n : Nat} (ht : t ≠ []) (h : read t = .found l n) :
    ∃ x after, t = x ++ after ∧ n = x.length ∧ Finds read l x after := by
  obtain ⟨opening, rest, rfl⟩ := List.exists_cons_of_ne_nil ht
  rcases hbody : readBody false 1 rest with ⟨k, closed⟩ | ⟨fault, site, m⟩
  · obtain ⟨body, beyond, rfl, hclosed, hk, hreplace⟩ := endsAtSlash_of_readBody hbody
    rw [read_of_readBody hbody hk hclosed] at h
    cases h
    refine ⟨opening :: (body ++ CodeUnit.slash :: beyond.takeWhile CharClass.regExpFlag.has),
      beyond.dropWhile CharClass.regExpFlag.has, ?_, rfl, fun after' hr => ?_⟩
    · rw [List.cons_append, List.append_assoc, List.cons_append, List.takeWhile_append_dropWhile]
    · have hflags := (cut_replace (unblank_of_all (by decide)) hr).1
      rw [List.cons_append, List.append_assoc, List.cons_append,
        read_of_readBody (hreplace _) hk hclosed, hflags]
  · rw [read_cons, hbody] at h
    cases h

end RegExpLiteral

end ScriptScanner
