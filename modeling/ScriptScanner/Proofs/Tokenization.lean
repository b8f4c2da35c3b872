import ScriptScanner.Tokenization
import ScriptScanner.Proofs.Scan
set_option autoImplicit false

/-!
# The tokens of a whole source

The tokens of a run that does not fail and the gaps before them lie side by side and fill the
source, from its beginning to the token for its end.  Nothing is lost between two tokens but
blanks, and the comments there are the ones that the next token carries.
-/

namespace ScriptScanner

variable {source : Source}

/-- The tokens, each after its gap, fill the source from an offset on; the last one is its end. -/
inductive Tiles (source : Source) (newlines : Bool) : (offset : Nat) → List Token → Prop
  | last {offset start : Nat} {t : Token} (le_start : offset ≤ start)
      (isEnd : t.kind = .endOfSource) (covers : t.Covers source start source.text.length)
      (isGap : Trivia.IsGap newlines (source.text.drop start) t.comments
        ((source.text.drop offset).take (start - offset))) :
      Tiles source newlines offset [t]
  | token {offset start stop : Nat} {t : Token} {rest : List Token} (le_start : offset ≤ start)
      (notEnd : t.kind ≠ .endOfSource) (covers : t.Covers source start stop)
      (isGap : Trivia.IsGap newlines (source.text.drop start) t.comments
        ((source.text.drop offset).take (start - offset)))
      (rest_tiles : Tiles source newlines stop rest) :
      Tiles source newlines offset (t :: rest)

/-- The text from the cursor to the token of a scan is the gap of its comments. -/
theorem Cursor.InPlace.exists_isGap_of_next_eq_ok {c c' : Cursor source} {flags : Flags} {t : Token}
    (hc : c.InPlace) (h : c.next flags = (.ok t, c')) :
    ∃ start, c.offset ≤ start ∧ t.Covers source start c'.offset ∧
      Trivia.IsGap flags.newlines (source.text.drop start) t.comments
        ((source.text.drop c.offset).take (start - c.offset)) := by
  obtain ⟨start, hle, hcovers, htrivia⟩ := hc.exists_covers_of_next_eq_ok h
  obtain ⟨_, hgap, _⟩ := Trivia.isGap_of_read_eq_found htrivia
  rw [c.rest_eq, List.drop_drop, Nat.add_sub_cancel' hle] at hgap
  exact ⟨start, hle, hcovers, hgap⟩

namespace Tokenization

/-- The tokens that a run still adds fill what is left of the source. -/
theorem exists_tiles_of_run {s : Settings} (p : Progress source) (hp : p.cursor.InPlace)
    (h : (p.run s).failure = none) :
    ∃ rest, (p.run s).tokens = p.tokens.reverse ++ rest ∧
      Tiles source s.newlines p.cursor.offset rest := by
  fun_induction Progress.run s p with
  | case1 => cases h
  | case2 p flags asked t cursor journal hscan after hend =>
    have hnext := Observer.next_eq_ok_of_scan hscan
    obtain ⟨start, hle, hcovers, hgap⟩ := hp.exists_isGap_of_next_eq_ok hnext
    rw [hcovers.stop_eq_length hend] at hcovers
    refine ⟨[t], ?_, .last hle hend hcovers hgap⟩
    exact List.reverse_cons
  | case3 p flags asked t cursor journal hscan after hend ih =>
    have hnext := Observer.next_eq_ok_of_scan hscan
    obtain ⟨start, hle, hcovers, hgap⟩ := hp.exists_isGap_of_next_eq_ok hnext
    obtain ⟨rest, htokens, hrest⟩ := ih (hp.of_next_eq hnext).1 h
    refine ⟨t :: rest, ?_, .token hle hend hcovers hgap hrest⟩
    rw [htokens, List.reverse_cons, List.append_assoc, List.singleton_append]

end Tokenization

/-- Where scanning a whole source does not fail, its tokens and the gaps before them fill it. -/
theorem tiles_tokenize {source : Source} {s : Settings} (h : (tokenize source s).failure = none) :
    Tiles source s.newlines 0 (tokenize source s).tokens := by
  obtain ⟨rest, htokens, htiles⟩ :=
    Tokenization.exists_tiles_of_run _ (Cursor.inPlace_start source) h
  rw [tokenize, htokens]
  exact htiles

/-- An assignment with comments on three lines. -/
def commentedLines : Source := ⟨"a /*/ b */ // c\n = 'd'\n", by decide +kernel⟩

theorem tiles_tokenize_commentedLines :
    (tokenize commentedLines { newlines := true }).failure = none ∧
      Tiles commentedLines true 0 (tokenize commentedLines { newlines := true }).tokens := by
  have hnone : (tokenize commentedLines { newlines := true }).failure = none :=
    Option.isNone_iff_eq_none.mp (by decide +kernel)
  exact ⟨hnone, tiles_tokenize hnone⟩

end ScriptScanner
