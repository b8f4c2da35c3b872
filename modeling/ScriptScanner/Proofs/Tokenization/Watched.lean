import ScriptScanner.Proofs.Feed.Watched
import ScriptScanner.Proofs.Tokenization.TwoRules
set_option autoImplicit false

/-!
# Observers see each scan once

In a run over a whole source each attempt scans once, so an observer that only listens is told of
every token of the run and of its failure, and the run is the same as without it.  A feed scans only
when nothing waits that it can use, and what it replays is told to nobody again.  The main statement
puts the two together.
-/

namespace ScriptScanner

variable {source : Source} {o : Observer} {s : Settings} {c : Cursor source}
  {earlier : List Token} {j j₀ : Journal} {run : Tokenization}

/-- What happens in a run over a whole source: its tokens, and the failure if it fails. -/
def Tokenization.happenings (run : Tokenization) : List Event :=
  run.tokens.map Event.token ++ run.failure.toList.flatMap Event.ofFailure

namespace Attempts

/-- With an observer that only listens, the attempts are the same, and it is told what happens. -/
theorem told (ho : o.OnlyListens) (h : Attempts { s with observer := .silent } c earlier j₀ run)
    (j : Journal) :
    Attempts { s with observer := o } c earlier j
      { run with journal := run.happenings.foldl o.hear j } := by
  induction h generalizing j with
  | failed scan =>
    obtain ⟨m, hnext, rfl⟩ := Observer.OnlyListens.silent.exists_of_scan_eq_error scan
    exact .failed (ho.scan_of_error hnext _ _)
  | last scan isEnd =>
    have hnext := Observer.next_eq_ok_of_scan scan
    exact .last (ho.scan_of_ok hnext _ _) isEnd
  | token scan notEnd _ ih =>
    have hnext := Observer.next_eq_ok_of_scan scan
    exact .token (ho.scan_of_ok hnext _ _) notEnd (ih _)

/-- The tokens of a run come in order. -/
theorem inOrder (h : Attempts s c earlier j run) (hc : c.InPlace) :
    Token.InOrder c.offset run.tokens := by
  induction h with
  | failed => exact .nil _
  | last scan => exact .of_next hc (Observer.next_eq_ok_of_scan scan) (.nil _)
  | token scan _ _ ih =>
    have hnext := Observer.next_eq_ok_of_scan scan
    exact .of_next hc hnext (ih (hc.of_next_eq hnext).1)

end Attempts

/-- An observer of a run over a whole source changes nothing but the journal, and what it hears of
is told to it once and in order: every token of the run, and its failure if it fails. -/
structure Tokenization.ToldOnce (source : Source) (s : Settings) : Prop where
  run_eq : tokenize source s =
    { tokenize source { s with observer := .silent } with journal := (tokenize source s).journal }
  events_eq : (tokenize source s).journal.events =
    ((tokenize source s).happenings.filter s.observer.hears).reverse
  inOrder : Token.InOrder 0 (tokenize source s).tokens

theorem Tokenization.toldOnce (source : Source) (s : Settings) (ho : s.observer.OnlyListens) :
    ToldOnce source s := by
  have hsilent := attempts_tokenize source { s with observer := .silent }
  have hrun : tokenize source s = { tokenize source { s with observer := .silent } with
      journal := (tokenize source { s with observer := .silent }).happenings.foldl
        s.observer.hear {} } := (hsilent.told (s := s) ho {}).unique (attempts_tokenize source s)
  refine ⟨?_, ?_, (attempts_tokenize source s).inOrder (Cursor.inPlace_start source)⟩
  · rw [hrun]
  · have hevents := s.observer.events_foldl_hear
      (tokenize source { s with observer := .silent }).happenings {}
    rw [hrun]
    exact hevents.trans (List.append_nil _)

/-- Observers that only listen see each scan once and change nothing, whether they watch a feed or a
run over a whole source. -/
theorem observer_toldOnce (source : Source) {o : Observer} (ho : o.OnlyListens) :
    (∀ filename flags requests,
        Feed.ToldOnce o (Feed.start source filename flags) requests) ∧
      ∀ s : Settings, s.observer = o → Tokenization.ToldOnce source s := by
  refine ⟨fun filename flags requests => Feed.toldOnce_start ho filename flags requests,
    fun s hs => ?_⟩
  subst hs
  exact Tokenization.toldOnce source s ho

/-- Callbacks for tokens and for errors that let everything pass. -/
def Observer.listener : Observer := ⟨some fun _ _ => none, some fun _ _ => none⟩

/-- A name, a number on the next line, and a string that is not closed. -/
def nameAboveNumber : Source := ⟨"a\n1 \"", by decide +kernel⟩

/-- Takes the name, looks at the line break and then beyond it, demands a name in vain, and takes
the number and what is left. -/
def lookBeyondBreak : List Request :=
  [.take, .setNewlines true, .peek, .setNewlines false, .peek, .demand "Identifier", .take, .take]

theorem observer_toldOnce_lookBeyondBreak :
    Observer.listener.OnlyListens ∧
      Feed.ToldOnce .listener (Feed.start nameAboveNumber Source.anonymousName ⟨false, true⟩)
        lookBeyondBreak ∧
      ((Feed.start nameAboveNumber Source.anonymousName ⟨false, true⟩).chronicle
        lookBeyondBreak).map (fun e => e.token?.map Token.start) =
          [some 0, some 1, some 2, none, none] ∧
      Tokenization.ToldOnce nameAboveNumber { observer := .listener } := by
  have honly : Observer.listener.OnlyListens := by
    refine ⟨fun callback hcallback calls t => ?_, fun callback hcallback calls d => ?_⟩
    · cases hcallback
      rfl
    · cases hcallback
      rfl
  obtain ⟨hfeed, hrun⟩ := observer_toldOnce nameAboveNumber honly
  exact ⟨honly, hfeed _ _ _, by decide +kernel, hrun { observer := .listener } rfl⟩

end ScriptScanner
