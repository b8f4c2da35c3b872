import ScriptScanner.Proofs.Lexeme.Delimited
import ScriptScanner.Proofs.LineBreaks
set_option autoImplicit false

/-!
# A lexeme depends on its own text alone

Which reader is asked for a lexeme is decided by the first unit, or by the first two where a number
begins with a point, and each reader finds the same whatever may replace the text behind.  So the
text of a lexeme is read as that lexeme wherever it stands, if a blank or the end of the source
comes after it, and if an operand may stand there or may not as before.
-/

namespace ScriptScanner

/-! ## Points -/

namespace Numeral

/-- A number that begins with a point has a digit after it. -/
theorem two_le_of_read_point {t : Text} {l : Lexeme} {n : Nat}
    (ht : pairAhead (fun u => u = CodeUnit.dot) CharClass.digit.has t = true)
    (h : read t = .found l n) : 2 ≤ n := by
  match t with
  | u :: d :: rest =>
    obtain ⟨hu, hd⟩ := Bool.and_eq_true_iff.mp ht
    obtain rfl := of_decide_eq_true hu
    have hdecimal :
        readParts (CodeUnit.dot :: d :: rest) = readDecimal (CodeUnit.dot :: d :: rest) :=
      readParts_eq_readDecimal rfl
    rcases hm : readDecimal (CodeUnit.dot :: d :: rest) with ⟨m, k⟩ | ⟨fault, site, k⟩
    · rw [read, hdecimal, hm] at h
      cases h
      have hle := le_of_readExponent_eq_found hm
      have hdot : CharClass.digit.has CodeUnit.dot = false := by decide
      simp [splitDigits, hdot, hd] at hle
      omega
    · rw [read, hdecimal, hm] at h
      cases h

theorem startsHere_eq (t : Text) :
    startsHere t = (t.head?.any CharClass.digit.has ||
      pairAhead (fun u => u = CodeUnit.dot) CharClass.digit.has t) := by
  match t with
  | [] => rfl
  | [u] => simp [startsHere, pairAhead]
  | u :: v :: rest => rfl

/-- Whether a number begins is not changed by a replacement behind the lexeme. -/
theorem startsHere_replace {x after after' : Text} (hx : x ≠ []) (hr : MayReplace after' after)
    (hpoint : pairAhead (fun u => u = CodeUnit.dot) CharClass.digit.has (x ++ after) = true →
      2 ≤ x.length) :
    startsHere (x ++ after') = startsHere (x ++ after) := by
  match x with
  | [u] =>
    have hnone :
        pairAhead (fun u => u = CodeUnit.dot) CharClass.digit.has ([u] ++ after) = false := by
      rw [← Bool.not_eq_true]
      exact fun htrue => absurd (hpoint htrue) (Nat.not_succ_le_self 1)
    rw [startsHere_eq, startsHere_eq, hnone,
      pairAhead_replace (unblank_of_all (by decide)) hx hr hnone]
    rfl
  | u :: v :: y => rfl

end Numeral

namespace Lexeme

/-- The reader for the lexeme at the front of a text. -/
def readerFor (operand : Bool) (t : Text) : Text → Reading Lexeme :=
  match t with
  | [] => fun _ => .found endOfSource 0
  | u :: _ =>
      if CharClass.nameStart.has u then Word.read
      else if Numeral.startsHere t then Numeral.read
      else if u = CodeUnit.doubleQuote || u = CodeUnit.singleQuote then StringLiteral.read
      else if u = CodeUnit.slash && operand then RegExpLiteral.read
      else readMark

theorem read_eq_readerFor (operand : Bool) (t : Text) : read operand t = readerFor operand t t := by
  cases t with
  | nil => rfl
  | cons u rest =>
    simp only [read, readerFor]
    split
    · rfl
    · split
      · rfl
      · split
        · rfl
        · split
          · rfl
          · rfl

/-- The choice of the reader is not changed by a replacement behind the lexeme. -/
theorem readerFor_replace {operand : Bool} {x after after' : Text} (hx : x ≠ [])
    (h : Numeral.startsHere (x ++ after') = Numeral.startsHere (x ++ after)) :
    readerFor operand (x ++ after') = readerFor operand (x ++ after) := by
  obtain ⟨u, y, rfl⟩ := List.exists_cons_of_ne_nil hx
  rw [List.cons_append, List.cons_append] at h ⊢
  simp only [readerFor, h]

theorem exists_finds_readMark {t : Text} {l : Lexeme} {n : Nat} (h : readMark t = .found l n) :
    ∃ x after, t = x ++ after ∧ n = x.length ∧ Finds readMark l x after := by
  cases hp : Punctuation.read? t with
  | some found =>
    obtain ⟨l', n'⟩ := found
    rw [readMark, hp] at h
    cases h
    obtain ⟨x, after, rfl, rfl, hreplace⟩ := Punctuation.exists_of_read? hp
    refine ⟨x, after, rfl, rfl, fun after' hr => ?_⟩
    rw [readMark, hreplace after' hr]
  | none =>
    by_cases hhead : t.head? = some CodeUnit.lineFeed
    · obtain ⟨after, rfl⟩ := List.head?_eq_some_iff.mp hhead
      cases h
      exact ⟨[CodeUnit.lineFeed], after, rfl, rfl, fun _ _ => rfl⟩
    · rw [readMark, hp] at h
      simp only at h
      rw [if_neg hhead] at h
      cases h

theorem exists_finds_readerFor {operand : Bool} {u : CodeUnit} {rest : Text} {l : Lexeme} {n : Nat}
    (h : readerFor operand (u :: rest) (u :: rest) = .found l n) :
    ∃ x after, u :: rest = x ++ after ∧ n = x.length ∧
      Finds (readerFor operand (u :: rest)) l x after := by
  generalize hreader : readerFor operand (u :: rest) = reader at h ⊢
  simp only [readerFor] at hreader
  split at hreader
  · subst hreader
    exact Word.exists_finds h
  · split at hreader
    · next hstart =>
      subst hreader
      exact Numeral.exists_finds hstart h
    · split at hreader
      · next hquote =>
        subst hreader
        rw [Bool.or_eq_true, decide_eq_true_eq, decide_eq_true_eq] at hquote
        exact StringLiteral.exists_finds hquote h
      · split at hreader
        · subst hreader
          exact RegExpLiteral.exists_finds (List.cons_ne_nil _ _) h
        · subst hreader
          exact exists_finds_readMark h

/-- A point before a digit begins a number. -/
theorem readerFor_point {operand : Bool} {t : Text}
    (h : pairAhead (fun u => u = CodeUnit.dot) CharClass.digit.has t = true) :
    readerFor operand t = Numeral.read := by
  have hstart : Numeral.startsHere t = true := by
    rw [Numeral.startsHere_eq, h, Bool.or_true]
  match t with
  | u :: v :: rest =>
    obtain rfl := of_decide_eq_true (Bool.and_eq_true_iff.mp h).1
    simp only [readerFor, hstart]
    rfl

/-- A lexeme is the front of the text that it is found in, and it is found there whatever may
replace the rest. -/
theorem exists_finds {operand : Bool} {t : Text} {l : Lexeme} {n : Nat}
    (h : read operand t = .found l n) (ht : t ≠ []) :
    ∃ x after, t = x ++ after ∧ n = x.length ∧ x ≠ [] ∧ Finds (read operand) l x after := by
  obtain ⟨u, rest, rfl⟩ := List.exists_cons_of_ne_nil ht
  have hpos := (pos_of_read_eq_found h (kind_of_read_cons h).1).1
  rw [read_eq_readerFor] at h
  obtain ⟨x, after, hcut, rfl, hfinds⟩ := exists_finds_readerFor h
  rw [hcut] at h hfinds
  have hx : x ≠ [] := List.length_pos_iff.mp hpos
  refine ⟨x, after, hcut, rfl, hx, fun after' hr => ?_⟩
  have hstart := Numeral.startsHere_replace hx hr fun hpoint => by
    rw [readerFor_point hpoint] at h
    exact Numeral.two_le_of_read_point hpoint h
  rw [read_eq_readerFor, readerFor_replace hx hstart]
  exact hfinds after' hr

end Lexeme

/-! ## Comments -/

namespace Trivia

/-- A comment begins with a slash and a star, or with two slashes. -/
theorem comment_eq_absent_iff {t : Text} :
    comment t = .absent ↔
      pairAhead (fun u => u = CodeUnit.slash)
        (fun v => v = CodeUnit.star || v = CodeUnit.slash) t = false := by
  rcases t with _ | ⟨u, _ | ⟨v, rest⟩⟩
  · exact ⟨fun _ => rfl, fun _ => rfl⟩
  · exact ⟨fun _ => rfl, fun _ => rfl⟩
  · by_cases hu : u = CodeUnit.slash
    · subst hu
      by_cases hstar : v = CodeUnit.star
      · subst hstar
        refine ⟨fun h => ?_, fun h => Bool.noConfusion h⟩
        rw [comment, if_pos rfl, if_pos rfl] at h
        split at h
        · cases h
        · cases h
      · by_cases hslash : v = CodeUnit.slash
        · subst hslash
          exact ⟨fun h => Comment.noConfusion h, fun h => Bool.noConfusion h⟩
        · simp [comment, pairAhead, hstar, hslash]
    · simp [comment, pairAhead, hu]

/-- No trivia begin with a unit that is neither a slash nor blank. -/
theorem read_of_stop {u : CodeUnit} (hslash : u ≠ CodeUnit.slash)
    (hblank : u ∉ CodeUnit.lineFeed :: inlineBlanks) (newlines : Bool) (rest : Text) :
    read newlines (u :: rest) = .found [] 0 := by
  have habsent : comment (u :: rest) = .absent := by
    rw [comment_eq_absent_iff]
    cases rest <;> simp [pairAhead, hslash]
  refine readFrom_of_stop habsent ?_
  rintro v hv (hspace | ⟨hfeed, -⟩)
  · obtain rfl := Option.some.inj hv
    exact List.not_mem_of_not_mem_cons hblank hspace
  · exact List.ne_of_not_mem_cons hblank ((Option.some.inj hv).trans hfeed)

/-- Where a lexeme and no trivia stand, no trivia come about by a replacement behind the lexeme. -/
theorem read_replace {x after after' : Text} (hx : x ≠ []) (hr : MayReplace after' after)
    (habsent : comment (x ++ after) = .absent) (hstop : ∀ u ∈ (x ++ after).head?, ¬ Blank false u) :
    read false (x ++ after') = .found [] 0 := by
  have habsent' : comment (x ++ after') = .absent := by
    rw [comment_eq_absent_iff] at habsent ⊢
    exact pairAhead_replace (unblank_of_all (by decide)) hx hr habsent
  obtain ⟨u, y, rfl⟩ := List.exists_cons_of_ne_nil hx
  exact readFrom_of_stop habsent' hstop

end Trivia

end ScriptScanner
