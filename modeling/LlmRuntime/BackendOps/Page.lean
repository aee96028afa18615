import LlmRuntime.Base.Transition
import LlmRuntime.BackendOps.Judging

/-!
# The page of the backend harness

`harness/backend-ops/index.html`. A click starts a run, which fetches its test file, imports the module and
feeds what it prints to a judge of its own; the page shows the verdict when the run exits or aborts. After a
harness error the button is free again while the module may still be at work, so several runs can print and
end in any order. The log is cut to its last lines; the judge does not read it.
-/

namespace LlmRuntime.BackendOps

open BackendOpsSummary

/-- `countExpectedCases` -/
def countExpectedCases (testFileText : Text) : Nat :=
  ((testFileText.splitOn newline).filter fun line => (trim line).length > 0).length

/-- `value.trim().split(/\s+/).filter(Boolean)` -/
def splitArgs (value : Text) : List Text := (value.splitOnP isSpace).filter fun word => word ≠ []

/-- What stands behind the first `--test-file`. -/
def testFileTarget (argv : List Text) : Option Text := argv[argv.idxOf (text "--test-file") + 1]?

/-- `target.replace(/^\/+/, "")` -/
def testFileName (target : Text) : Text := target.dropWhile fun c => c = 47

inductive VerdictClass where
  | none
  | pass
  | bad
  deriving DecidableEq

/-- How far the handler of a click is. `awaited` is whether the promise of the factory has not settled. -/
inductive RunStage where
  | loading (target : Text)
  | importing (summary : BackendOpsSummary)
  | running (summary : BackendOpsSummary) (awaited : Bool)
  | failed

structure Page where
  disabled : Bool
  status : Text
  shown : List Text
  summaryText : Text
  summaryClass : VerdictClass
  /-- The runs in the order of their clicks. -/
  runs : List RunStage

inductive Event where
  | click (args : Text)
  /-- The status and the text of the test file. -/
  | fetched (run : Nat) (answer : Except Text (Nat × Text))
  /-- The import of the module, and the call of its factory. -/
  | imported (run : Nat) (answer : Except Text Unit)
  | print (run : Nat) (line : Text)
  | onExit (run : Nat) (code : Int)
  | onAbort (run : Nat) (what : Text)
  /-- The promise of the factory settles. -/
  | settled (run : Nat) (answer : Except Text Unit)

namespace Page

def SCROLLBACK : Nat := 4000

def showText (s : Page) (line : Text) : Page :=
  let shown := s.shown ++ [line]
  { s with shown := shown.drop (shown.length - SCROLLBACK) }

def setRun (s : Page) (run : Nat) (stage : RunStage) : Page := { s with runs := s.runs.set run stage }

/-- `setVerdict(summary)`, which also flushes the summary, and what the callbacks do with it. -/
def setVerdict (s : Page) (run : Nat) (summary : BackendOpsSummary) (awaited : Bool) (status : Text) : Page :=
  { s.setRun run (.running summary.flush awaited) with
    status := status
    summaryText := summary.flush.format
    summaryClass := if summary.flush.verdict.pass then .pass else .bad
    disabled := false }

/-- The `catch` of the handler. -/
def harnessError (s : Page) (message : Text) : Page :=
  { s.showText (text "harness error: " ++ message) with
    status := text "<span class=\"bad\">harness error</span>"
    disabled := false }

/-- Without a test file there is nothing to wait for. -/
def firstStage (argv : List Text) : RunStage :=
  match testFileTarget argv with
  | none => .importing (new none .webgpu)
  | some target => .loading target

def click (s : Page) (args : Text) : Page :=
  let argv := splitArgs args
  { Page.showText { s with shown := [] } (text "argv: " ++ join " " argv) with
    disabled := true
    status := text "running..."
    summaryText := text "(running)"
    summaryClass := .none
    runs := s.runs ++ [firstStage argv] }

def fetched (s : Page) (run : Nat) (target : Text) : Except Text (Nat × Text) → Page
  | .error message => (s.setRun run .failed).harnessError message
  | .ok (status, content) =>
      let name := testFileName target
      if 200 ≤ status ∧ status < 300 then
        let expected := countExpectedCases content
        (s.setRun run (.importing (new (some expected) .webgpu))).showText
          (text "test file: " ++ name ++ text " (" ++ natText content.length ++ text " bytes, " ++
            natText expected ++ text " case(s) expected)")
      else
        (s.setRun run .failed).harnessError
          (text "could not fetch " ++ name ++ text ": HTTP " ++ natText status)

def imported (s : Page) (run : Nat) (summary : BackendOpsSummary) : Except Text Unit → Page
  | .error message => (s.setRun run .failed).harnessError message
  | .ok () => s.setRun run (.running summary true)

/-- `emit(text)` -/
def emit (s : Page) (run : Nat) (summary : BackendOpsSummary) (awaited : Bool) (line : Text) : Page :=
  (s.setRun run (.running (summary.feed (line ++ [newline])) awaited)).showText line

def settled (s : Page) (run : Nat) (summary : BackendOpsSummary) : Except Text Unit → Page
  | .error message => (s.setRun run (.running summary false)).harnessError message
  | .ok () => s.setRun run (.running summary false)

/-- `${code}` -/
def intText : Int → Text
  | .ofNat n => natText n
  | .negSucc n => text "-" ++ natText (n + 1)

def exitStatus (code : Int) : Text :=
  if code = 0 then text "<span class=\"ok\">exit 0</span>"
  else text "<span class=\"bad\">exit " ++ intText code ++ text "</span>"

def step (s : Page) : Event → Option Page
  | .click args => if s.disabled then none else some (s.click args)
  | .fetched run answer =>
      match s.runs[run]? with
      | some (.loading target) => some (s.fetched run target answer)
      | _ => none
  | .imported run answer =>
      match s.runs[run]? with
      | some (.importing summary) => some (s.imported run summary answer)
      | _ => none
  | .print run line =>
      match s.runs[run]? with
      | some (.running summary awaited) => some (s.emit run summary awaited line)
      | _ => none
  | .onExit run code =>
      match s.runs[run]? with
      | some (.running summary awaited) => some (s.setVerdict run summary awaited (exitStatus code))
      | _ => none
  | .onAbort run what =>
      match s.runs[run]? with
      | some (.running summary awaited) =>
          some (s.setVerdict run summary awaited
            (text "<span class=\"bad\">aborted: " ++ what ++ text "</span>"))
      | _ => none
  | .settled run answer =>
      match s.runs[run]? with
      | some (.running summary true) => some (s.settled run summary answer)
      | _ => none

end Page

def page : Transition Page Event where
  start := ⟨false, [], [], text "(not run)", .none, []⟩
  step := Page.step

/-! ### What a run was given and what it has printed -/

/-- The number of cases that the test file of the run says. -/
def Event.expects (run : Nat) : Event → Option Nat
  | .fetched run' (.ok (_, content)) => if run' = run then some (countExpectedCases content) else none
  | _ => none

def Event.prints (run : Nat) : Event → Text
  | .print run' line => if run' = run then line ++ [newline] else []
  | _ => []

def expectedOf (run : Nat) (es : List Event) : Option Nat := es.findSome? (Event.expects run)

def printed (run : Nat) (es : List Event) : Text := es.flatMap (Event.prints run)

/-- The run whose verdict the event shows. -/
def Event.judges : Event → Option Nat
  | .onExit run _ | .onAbort run _ => some run
  | _ => none

/-- After the event another verdict stands on the page, or none. -/
def Event.replaces : Event → Bool
  | .click _ | .onExit _ _ | .onAbort _ _ => true
  | _ => false

def Event.run : Event → Option Nat
  | .click _ => none
  | .fetched run _ | .imported run _ | .print run _ | .onExit run _ | .onAbort run _ | .settled run _ => some run

variable {run : Nat} {es : List Event} {e : Event} {s s' : Page} {stage : RunStage}
  {summary : BackendOpsSummary}

theorem verdict_harnessError (s : Page) (message : Text) :
    (s.harnessError message).summaryText = s.summaryText ∧ (s.harnessError message).summaryClass = s.summaryClass := by
  dsimp only [Page.harnessError, Page.showText]
  exact ⟨rfl, rfl⟩

theorem verdict_fetched (s : Page) (run : Nat) (target : Text) (answer : Except Text (Nat × Text)) :
    (s.fetched run target answer).summaryText = s.summaryText ∧
      (s.fetched run target answer).summaryClass = s.summaryClass := by
  cases answer with
  | error message => exact verdict_harnessError _ message
  | ok answer =>
      dsimp only [Page.fetched]
      split
      · dsimp only [Page.setRun, Page.showText]
        exact ⟨rfl, rfl⟩
      · exact verdict_harnessError _ _

theorem verdict_imported (s : Page) (run : Nat) (summary : BackendOpsSummary) (answer : Except Text Unit) :
    (s.imported run summary answer).summaryText = s.summaryText ∧
      (s.imported run summary answer).summaryClass = s.summaryClass := by
  cases answer with
  | error message => exact verdict_harnessError _ message
  | ok answer => exact ⟨rfl, rfl⟩

theorem verdict_emit (s : Page) (run : Nat) (summary : BackendOpsSummary) (awaited : Bool) (line : Text) :
    (s.emit run summary awaited line).summaryText = s.summaryText ∧
      (s.emit run summary awaited line).summaryClass = s.summaryClass := by
  dsimp only [Page.emit, Page.setRun, Page.showText]
  exact ⟨rfl, rfl⟩

theorem verdict_settled (s : Page) (run : Nat) (summary : BackendOpsSummary) (answer : Except Text Unit) :
    (s.settled run summary answer).summaryText = s.summaryText ∧
      (s.settled run summary answer).summaryClass = s.summaryClass := by
  cases answer with
  | error message => exact verdict_harnessError _ message
  | ok answer => exact ⟨rfl, rfl⟩

theorem expectedOf_concat : expectedOf run (es ++ [e]) = (expectedOf run es).or (e.expects run) := by
  rw [expectedOf, List.findSome?_append, List.findSome?_singleton]
  rfl

theorem printed_concat : printed run (es ++ [e]) = printed run es ++ e.prints run := by
  rw [printed, List.flatMap_append, List.flatMap_singleton]
  rfl

theorem quiet_of_run_ne (h : e.run ≠ some run) : e.expects run = none ∧ e.prints run = [] := by
  cases e with
  | fetched run' answer =>
      have hne : run' ≠ run := fun heq => h (congrArg some heq)
      cases answer with
      | error message => exact ⟨rfl, rfl⟩
      | ok answer => exact ⟨if_neg hne, rfl⟩
  | print run' line => exact ⟨rfl, if_neg fun heq => h (congrArg some heq)⟩
  | _ => exact ⟨rfl, rfl⟩

/-- What is fed ends with a newline, so nothing is left over. -/
theorem feed_line (hcarry : summary.carry = []) (line : Text) : (summary.feed (line ++ [newline])).carry = [] := by
  rw [feed_eq, hcarry, List.nil_append]
  exact List.pending_append_cons line []

theorem feed_feed (hcarry : newline ∉ summary.carry) (front back : Text) :
    (summary.feed front).feed back = summary.feed (front ++ back) := by
  have htwo := foldl_feed hcarry [front, back]
  have hone := foldl_feed hcarry [front ++ back]
  rw [List.flatten_cons, List.flatten_cons, List.flatten_nil, List.append_nil] at htwo
  rw [List.flatten_cons, List.flatten_nil, List.append_nil] at hone
  rw [List.foldl_cons, List.foldl_cons, List.foldl_nil] at htwo
  rw [List.foldl_cons, List.foldl_nil] at hone
  rw [htwo, hone]

/-! ### What the judges have been fed -/

/-- What a run holds after these events. -/
def Keeps (es : List Event) (run : Nat) : RunStage → Prop
  | .loading _ => expectedOf run es = none ∧ printed run es = []
  | .importing summary => summary = new (expectedOf run es) .webgpu ∧ printed run es = []
  | .running summary _ => summary = (new (expectedOf run es) .webgpu).feed (printed run es) ∧ summary.carry = []
  | .failed => True

structure Books (es : List Event) (s : Page) : Prop where
  runs : ∀ run stage, s.runs[run]? = some stage → Keeps es run stage
  /-- Nothing is about a run that there is not yet. -/
  ahead : ∀ run, s.runs.length ≤ run → expectedOf run es = none ∧ printed run es = []

theorem Keeps.other (h : Keeps es run stage) (hother : e.run ≠ some run) : Keeps (es ++ [e]) run stage := by
  obtain ⟨hexpects, hprints⟩ := quiet_of_run_ne hother
  have hexpected : expectedOf run (es ++ [e]) = expectedOf run es := by
    rw [expectedOf_concat, hexpects, Option.or_none]
  have hprinted : printed run (es ++ [e]) = printed run es := by
    rw [printed_concat, hprints, List.append_nil]
  unfold Keeps at h ⊢
  rwa [hexpected, hprinted]

theorem Books.set (h : Books es s) {old : RunStage} (hget : s.runs[run]? = some old) (hrun : e.run = some run)
    (hruns : s'.runs = s.runs.set run stage) (hkeeps : Keeps (es ++ [e]) run stage) : Books (es ++ [e]) s' := by
  have hlt : run < s.runs.length := (List.getElem?_eq_some_iff.mp hget).1
  constructor
  · intro other stage' hother
    rw [hruns, List.getElem?_set] at hother
    by_cases heq : run = other
    · rw [if_pos heq, if_pos hlt, Option.some.injEq] at hother
      rwa [← heq, ← hother]
    · rw [if_neg heq] at hother
      apply (h.runs other stage' hother).other
      rw [hrun]
      exact fun hsame => heq (Option.some.inj hsame)
  · intro other hahead
    rw [hruns, List.length_set] at hahead
    have hne : e.run ≠ some other := by
      rw [hrun]
      intro hsame
      have heq : run = other := Option.some.inj hsame
      omega
    obtain ⟨hexpects, hprints⟩ := quiet_of_run_ne hne
    obtain ⟨hexpected, hprinted⟩ := h.ahead other hahead
    rw [expectedOf_concat, hexpects, printed_concat, hprints, hexpected, hprinted]
    exact ⟨rfl, rfl⟩

theorem Books.click (h : Books es s) (args : Text) : Books (es ++ [.click args]) (s.click args) := by
  have hquiet (run : Nat) : expectedOf run (es ++ [.click args]) = expectedOf run es ∧
      printed run (es ++ [.click args]) = printed run es := by
    rw [expectedOf_concat, printed_concat]
    exact ⟨Option.or_none, List.append_nil _⟩
  constructor
  · intro run stage hget
    by_cases hlt : run < s.runs.length
    · have hold : s.runs[run]? = some stage := by
        rw [← hget]
        exact (List.getElem?_append_left hlt).symm
      have hnone : (Event.click args).run ≠ some run := by
        intro hrun
        cases hrun
      exact (h.runs run stage hold).other hnone
    · obtain ⟨hexpected, hprinted⟩ := h.ahead run (Nat.not_lt.mp hlt)
      obtain ⟨hexpected', hprinted'⟩ := hquiet run
      have hnew : [Page.firstStage (splitArgs args)][run - s.runs.length]? = some stage := by
        rw [← hget]
        exact (List.getElem?_append_right (Nat.not_lt.mp hlt)).symm
      have hstage := List.mem_singleton.mp (List.mem_of_getElem? hnew)
      rw [hstage, Page.firstStage]
      split
      · refine ⟨?_, hprinted'.trans hprinted⟩
        rw [hexpected', hexpected]
      · exact ⟨hexpected'.trans hexpected, hprinted'.trans hprinted⟩
  · intro run hahead
    have hle : s.runs.length ≤ run := by
      have hlength : (s.click args).runs.length = s.runs.length + 1 := List.length_append
      omega
    obtain ⟨hexpected, hprinted⟩ := h.ahead run hle
    exact ⟨(hquiet run).1.trans hexpected, (hquiet run).2.trans hprinted⟩

/-- What an event does to the page, and what it takes. -/
inductive Moves (s : Page) : Event → Page → Prop where
  | click (args : Text) : Moves s (.click args) (s.click args)
  | fetched (run : Nat) (target : Text) (answer : Except Text (Nat × Text))
      (hget : s.runs[run]? = some (.loading target)) : Moves s (.fetched run answer) (s.fetched run target answer)
  | imported (run : Nat) (summary : BackendOpsSummary) (answer : Except Text Unit)
      (hget : s.runs[run]? = some (.importing summary)) : Moves s (.imported run answer) (s.imported run summary answer)
  | print (run : Nat) (summary : BackendOpsSummary) (awaited : Bool) (line : Text)
      (hget : s.runs[run]? = some (.running summary awaited)) :
      Moves s (.print run line) (s.emit run summary awaited line)
  | judged (e : Event) (run : Nat) (summary : BackendOpsSummary) (awaited : Bool) (status : Text)
      (hget : s.runs[run]? = some (.running summary awaited)) (hjudges : e.judges = some run) :
      Moves s e (s.setVerdict run summary awaited status)
  | settled (run : Nat) (summary : BackendOpsSummary) (answer : Except Text Unit)
      (hget : s.runs[run]? = some (.running summary true)) :
      Moves s (.settled run answer) (s.settled run summary answer)

theorem step_moves (hstep : s.step e = some s') : Moves s e s' := by
  cases e with
  | click args =>
      unfold Page.step at hstep
      dsimp only at hstep
      split at hstep
      · cases hstep
      · cases hstep
        exact .click args
  | fetched run answer =>
      unfold Page.step at hstep
      dsimp only at hstep
      split at hstep
      · cases hstep
        exact .fetched run _ answer ‹_›
      · cases hstep
  | imported run answer =>
      unfold Page.step at hstep
      dsimp only at hstep
      split at hstep
      · cases hstep
        exact .imported run _ answer ‹_›
      · cases hstep
  | print run line =>
      unfold Page.step at hstep
      dsimp only at hstep
      split at hstep
      · cases hstep
        exact .print run _ _ line ‹_›
      · cases hstep
  | onExit run code =>
      unfold Page.step at hstep
      dsimp only at hstep
      split at hstep
      · cases hstep
        exact .judged _ run _ _ _ ‹_› rfl
      · cases hstep
  | onAbort run what =>
      unfold Page.step at hstep
      dsimp only at hstep
      split at hstep
      · cases hstep
        exact .judged _ run _ _ _ ‹_› rfl
      · cases hstep
  | settled run answer =>
      unfold Page.step at hstep
      dsimp only at hstep
      split at hstep
      · cases hstep
        exact .settled run _ answer ‹_›
      · cases hstep

theorem run_of_judges (h : e.judges = some run) : e.run = some run ∧ e.replaces = true := by
  cases e with
  | onExit | onAbort => exact ⟨h, rfl⟩
  | _ => cases h

/-- An event that is neither an answer to the fetch nor a line leaves what a run holds. -/
theorem Keeps.silent (h : Keeps es run stage) (hexpects : e.expects run = none) (hprints : e.prints run = []) :
    Keeps (es ++ [e]) run stage := by
  have hexpected : expectedOf run (es ++ [e]) = expectedOf run es := by
    rw [expectedOf_concat, hexpects, Option.or_none]
  have hprinted : printed run (es ++ [e]) = printed run es := by
    rw [printed_concat, hprints, List.append_nil]
  unfold Keeps at h ⊢
  rwa [hexpected, hprinted]

theorem Books.step (h : Books es s) (hmoves : Moves s e s') : Books (es ++ [e]) s' := by
  cases hmoves with
  | click args => exact h.click args
  | fetched run target answer hget =>
      obtain ⟨hexpected, hprinted⟩ := h.runs run _ hget
      have hstill : printed run (es ++ [.fetched run answer]) = [] := by
        rw [printed_concat, hprinted]
        rfl
      cases answer with
      | error message => exact h.set hget rfl rfl trivial
      | ok answer =>
          obtain ⟨status, content⟩ := answer
          unfold Page.fetched
          dsimp only
          split
          · refine h.set hget rfl rfl ⟨?_, hstill⟩
            rw [expectedOf_concat, hexpected, Option.none_or, Event.expects, if_pos rfl]
          · exact h.set hget rfl rfl trivial
  | imported run summary answer hget =>
      obtain ⟨hsummary, hprinted⟩ := h.runs run _ hget
      cases answer with
      | error message => exact h.set hget rfl rfl trivial
      | ok answer =>
          have hkeeps : Keeps es run (.running summary true) := by
            rw [Keeps, hprinted, feed_eq, hsummary]
            exact ⟨rfl, rfl⟩
          exact h.set hget rfl rfl (hkeeps.silent rfl rfl)
  | print run summary awaited line hget =>
      obtain ⟨hsummary, hcarry⟩ := h.runs run _ hget
      have hfresh : newline ∉ (new (expectedOf run es) .webgpu).carry := List.not_mem_nil
      have hexpected : expectedOf run (es ++ [.print run line]) = expectedOf run es := by
        rw [expectedOf_concat]
        exact Option.or_none
      refine h.set hget rfl rfl ⟨?_, feed_line hcarry line⟩
      rw [hexpected, printed_concat, Event.prints, if_pos rfl, ← feed_feed hfresh, ← hsummary]
  | judged e run summary awaited status hget hjudges =>
      have hkeeps := h.runs run _ hget
      have hflush : summary.flush = summary := flush_of_carry_eq_nil hkeeps.2
      have hquiet : e.expects run = none ∧ e.prints run = [] := by
        cases e with
        | onExit | onAbort => exact ⟨rfl, rfl⟩
        | _ => cases hjudges
      rw [← hflush] at hkeeps
      exact h.set hget (run_of_judges hjudges).1 rfl (hkeeps.silent hquiet.1 hquiet.2)
  | settled run summary answer hget =>
      have hkeeps := h.runs run _ hget
      change Keeps es run (.running summary false) at hkeeps
      cases answer with
      | error message => exact h.set hget rfl rfl (hkeeps.silent rfl rfl)
      | ok answer => exact h.set hget rfl rfl (hkeeps.silent rfl rfl)

/-! ### The verdict on the page -/

/-- The last verdict that was shown is that of `run`, after the events `before`. -/
def LastShown (es before : List Event) (run : Nat) : Prop :=
  ∃ e after, es = before ++ e :: after ∧ e.judges = some run ∧ ∀ f ∈ after, f.replaces = false

theorem lastShown_concat {before : List Event} : LastShown (es ++ [e]) before run ↔
    before = es ∧ e.judges = some run ∨ e.replaces = false ∧ LastShown es before run := by
  constructor
  · intro h
    obtain ⟨f, after, hes, hjudges, hafter⟩ := h
    rcases List.eq_nil_or_concat after with rfl | ⟨after', g, rfl⟩
    · obtain ⟨hbefore, hlast⟩ := List.append_inj' hes rfl
      rw [List.singleton_inj] at hlast
      exact .inl ⟨hbefore.symm, hlast ▸ hjudges⟩
    · rw [List.concat_eq_append, ← List.cons_append, ← List.append_assoc] at hes
      obtain ⟨hbefore, hlast⟩ := List.append_inj' hes rfl
      rw [List.singleton_inj] at hlast
      refine .inr ⟨?_, f, after', hbefore, hjudges, fun g hmem => hafter g ?_⟩
      · rw [hlast]
        exact hafter g (by simp)
      · rw [List.concat_eq_append]
        exact List.mem_append_left _ hmem
  · intro h
    rcases h with ⟨rfl, hjudges⟩ | ⟨hreplaces, f, after, rfl, hjudges, hafter⟩
    · exact ⟨e, [], rfl, hjudges, fun f hmem => absurd hmem List.not_mem_nil⟩
    · refine ⟨f, after ++ [e], by rw [List.append_assoc, List.cons_append], hjudges, fun g hmem => ?_⟩
      rw [List.mem_append, List.mem_singleton] at hmem
      rcases hmem with hmem | rfl
      · exact hafter g hmem
      · exact hreplaces

/-- The judge of all that the run had printed, against the number of cases in its test file. -/
def judgeOf (before : List Event) (run : Nat) : BackendOpsSummary :=
  judge (expectedOf run before) .webgpu [printed run before]

structure Honest (es : List Event) (s : Page) : Prop where
  books : Books es s
  shows : ∀ before run, LastShown es before run →
    s.summaryText = (judgeOf before run).format ∧
      s.summaryClass = if (judgeOf before run).verdict.pass then .pass else .bad
  only : s.summaryClass ≠ .none → ∃ before run, LastShown es before run

theorem Honest.start : Honest [] page.start where
  books := ⟨fun _ _ hget => absurd (List.mem_of_getElem? hget) List.not_mem_nil, fun _ _ => ⟨rfl, rfl⟩⟩
  shows before run h := by
    obtain ⟨e, after, hes, -⟩ := h
    exact absurd hes.symm (by simp)
  only h := absurd rfl h

/-- An event that shows no verdict leaves the last one on the page. -/
theorem Honest.unchanged (h : Honest es s) (hbooks : Books (es ++ [e]) s') (hreplaces : e.replaces = false)
    (hverdict : s'.summaryText = s.summaryText ∧ s'.summaryClass = s.summaryClass) : Honest (es ++ [e]) s' where
  books := hbooks
  shows before run hlast := by
    rw [hverdict.1, hverdict.2]
    rcases lastShown_concat.mp hlast with ⟨-, hjudges⟩ | ⟨-, hlast⟩
    · rw [(run_of_judges hjudges).2] at hreplaces
      cases hreplaces
    · exact h.shows before run hlast
  only hsome := by
    rw [hverdict.2] at hsome
    obtain ⟨before, run, hlast⟩ := h.only hsome
    exact ⟨before, run, lastShown_concat.mpr (.inr ⟨hreplaces, hlast⟩)⟩

theorem Honest.click (h : Honest es s) (args : Text) : Honest (es ++ [.click args]) (s.click args) where
  books := h.books.click args
  shows before run hlast := by
    rcases lastShown_concat.mp hlast with ⟨-, hjudges⟩ | ⟨hreplaces, -⟩
    · cases hjudges
    · cases hreplaces
  only hsome := absurd rfl hsome

theorem Honest.judged (h : Honest es s) {awaited : Bool} {status : Text}
    (hget : s.runs[run]? = some (.running summary awaited)) (hjudges : e.judges = some run) :
    Honest (es ++ [e]) (s.setVerdict run summary awaited status) where
  books := h.books.step (.judged e run summary awaited status hget hjudges)
  shows before run' hlast := by
    rcases lastShown_concat.mp hlast with ⟨rfl, hjudges'⟩ | ⟨hreplaces, -⟩
    · rw [hjudges, Option.some.injEq] at hjudges'
      subst hjudges'
      have hsummary : summary.flush = judgeOf before run := by
        rw [(h.books.runs run _ hget).1]
        rfl
      rw [← hsummary]
      exact ⟨rfl, rfl⟩
    · rw [(run_of_judges hjudges).2] at hreplaces
      cases hreplaces
  only _ := ⟨es, run, lastShown_concat.mpr (.inl ⟨rfl, hjudges⟩)⟩

theorem Honest.step (h : Honest es s) (hmoves : Moves s e s') : Honest (es ++ [e]) s' := by
  have hbooks := h.books.step hmoves
  cases hmoves with
  | click args => exact h.click args
  | fetched run target answer _ => exact h.unchanged hbooks rfl (verdict_fetched s run target answer)
  | imported run summary answer _ => exact h.unchanged hbooks rfl (verdict_imported s run summary answer)
  | print run summary awaited line _ => exact h.unchanged hbooks rfl (verdict_emit s run summary awaited line)
  | judged e run summary awaited status hget hjudges => exact h.judged hget hjudges
  | settled run summary answer _ => exact h.unchanged hbooks rfl (verdict_settled s run summary answer)

theorem honest_of_run (hrun : page.run page.start es = some s) : Honest es s :=
  Transition.run_history_along (C := fun _ _ => True) (P := Honest) Honest.start
    (fun _ _ _ _ _ h _ hstep => h.step (step_moves hstep))
    (Transition.along_of_forall (fun _ _ => trivial) _ _) hrun

/-- **The page shows a pass exactly if the judge passes all that the run has printed.** -/
theorem page_verdict (es : List Event) (s : Page) (hrun : page.run page.start es = some s) :
    (s.summaryClass = .pass ↔
      ∃ before run, LastShown es before run ∧ (judgeOf before run).verdict.pass = true) ∧
    ∀ before run, LastShown es before run → s.summaryText = (judgeOf before run).format := by
  have h := honest_of_run hrun
  refine ⟨⟨fun hpass => ?_, fun hlast => ?_⟩, fun before run hlast => (h.shows before run hlast).1⟩
  · have hsome : s.summaryClass ≠ .none := by
      rw [hpass]
      exact VerdictClass.noConfusion
    obtain ⟨before, run, hlast⟩ := h.only hsome
    refine ⟨before, run, hlast, ?_⟩
    have hclass := (h.shows before run hlast).2
    rw [hpass] at hclass
    by_contra hnot
    rw [if_neg hnot] at hclass
    cases hclass
  · obtain ⟨before, run, hlast, hpass⟩ := hlast
    rw [(h.shows before run hlast).2, if_pos hpass]

/-- One case in the test file, and it is OK. -/
theorem page_verdict_oneCase : ∃ s, page.run page.start [.click (text "--test-file /c.txt"),
      .fetched 0 (.ok (200, text "MUL_MAT\n")), .imported 0 (.ok ()), .print 0 (text "Backend 1/1: WebGPU"),
      .print 0 (text "  A(x): OK"), .onExit 0 0] = some s ∧ s.summaryClass = .pass := by
  have hrun : page.run page.start [.click (text "--test-file /c.txt"),
      .fetched 0 (.ok (200, text "MUL_MAT\n")), .imported 0 (.ok ()), .print 0 (text "Backend 1/1: WebGPU"),
      .print 0 (text "  A(x): OK"), .onExit 0 0] = some _ := rfl
  refine ⟨_, hrun, (page_verdict _ _ hrun).1.mpr ⟨[.click (text "--test-file /c.txt"),
    .fetched 0 (.ok (200, text "MUL_MAT\n")), .imported 0 (.ok ()), .print 0 (text "Backend 1/1: WebGPU"),
    .print 0 (text "  A(x): OK")], 0, ⟨.onExit 0 0, [], rfl, rfl, by simp⟩, ?_⟩⟩
  rw [judgeOf, judge_eq]
  decide

end LlmRuntime.BackendOps
