import LlmRuntime.Soak.Cycles

/-!
# What a good cycle stands for

The number of characters in the log is checked against the run that led to it: a good cycle counts the text
that `onText` brought between the `ready` and the end of the `generate()` of its own number, on one page.
-/

namespace LlmRuntime.Soak

/-- Behind the `ready` of cycle `cycle`, on the page that saw it, `onText` has brought `text`. -/
def Brought (o : Setting) (es : List Event) (cycle readyMs : Nat) (text : Text) : Prop :=
  ∃ before between v, es = before ++ .ready (.ok readyMs) :: between ∧
    (soak o).run (soak o).start before = some v ∧ v.page.record.cycle = cycle ∧ .load ∉ between ∧
      text = said between

/-- The record counts the text that its cycle put out until its `generate()` was over, and there is some. -/
def Wrote (o : Setting) (es : List Event) (r : Record) : Prop :=
  ∃ during after text, es = during ++ .generated (.ok r.genMs) :: after ∧ Brought o during r.cycle r.readyMs text ∧
    r.chars = text.length ∧ 0 < r.chars

/-- The good cycles of both copies of the log wrote what they count. -/
structure Logged (o : Setting) (es : List Event) (w : World) : Prop where
  state : ∀ r ∈ w.page.state.log, r.ok = true → Wrote o es r
  stored : ∀ s ∈ w.storage, ∀ r ∈ s.log, r.ok = true → Wrote o es r

structure History (o : Setting) (es : List Event) (w : World) : Prop extends Logged o es w where
  generating : ∀ before, w.page.phase = .generating before →
    Brought o es w.page.record.cycle w.page.record.readyMs w.page.outputBuffer
  generated : ∀ before, w.page.phase = .stopping before ∨ w.page.phase = .closing before →
    Wrote o es w.page.record

/-- No cycle is between its `ready` and its end. -/
def Phase.Idle (phase : Phase) : Prop := phase = .returned ∨ phase = .asking ∨ phase = .cleaning ∨
  ∃ before, phase = .starting before

variable {o : Setting} {es : List Event} {e : Event} {w w' : World} {r r' : Record} {before : Count}

/-! ### One more event -/

theorem said_append (es fs : List Event) : said (es ++ fs) = said es ++ said fs := List.flatMap_append

theorem Brought.append {cycle readyMs : Nat} {text : Text} (h : Brought o es cycle readyMs text) (hload : e ≠ .load) :
    Brought o (es ++ [e]) cycle readyMs (text ++ said [e]) := by
  obtain ⟨before, between, v, rfl, hrun, hcycle, hnone, rfl⟩ := h
  refine ⟨before, between ++ [e], v, ?_, hrun, hcycle, ?_, (said_append _ _).symm⟩
  · rw [List.append_assoc, List.cons_append]
  · rw [List.mem_append, List.mem_singleton, not_or]
    exact ⟨hnone, hload.symm⟩

theorem Wrote.append (h : Wrote o es r) (e : Event) : Wrote o (es ++ [e]) r := by
  obtain ⟨during, after, text, rfl, hbrought, hchars⟩ := h
  refine ⟨during, after ++ [e], text, ?_, hbrought, hchars⟩
  rw [List.append_assoc, List.cons_append]

/-- What is written down after `generate()` leaves this alone. -/
theorem Wrote.congr (h : Wrote o es r) (hcycle : r'.cycle = r.cycle) (hready : r'.readyMs = r.readyMs)
    (hgen : r'.genMs = r.genMs) (hchars : r'.chars = r.chars) : Wrote o es r' := by
  rw [Wrote, hcycle, hready, hgen, hchars]
  exact h

theorem Logged.append (h : Logged o es w) (e : Event) : Logged o (es ++ [e]) w where
  state r hmem hok := (h.state r hmem hok).append e
  stored s hs r hmem hok := (h.stored s hs r hmem hok).append e

theorem Logged.setPage (h : Logged o es w) (page : Page) (hstate : page.state = w.page.state) :
    Logged o es (w.setPage page) where
  state := by
    rw [World.setPage_page, hstate]
    exact h.state
  stored := h.stored

theorem Logged.idle (h : Logged o es w) (hidle : w.page.phase.Idle) : History o es w where
  toLogged := h
  generating before hphase := by
    rw [hphase] at hidle
    obtain hidle | hidle | hidle | ⟨_, hidle⟩ := hidle <;> cases hidle
  generated before hphase := by
    obtain hphase | hphase := hphase
    · rw [hphase] at hidle
      obtain hidle | hidle | hidle | ⟨_, hidle⟩ := hidle <;> cases hidle
    · rw [hphase] at hidle
      obtain hidle | hidle | hidle | ⟨_, hidle⟩ := hidle <;> cases hidle

/-! ### The page -/

theorem Logged.finish (h : Logged o es w) (hwrote : r.ok = true → Wrote o es r) : History o es (w.finish r) := by
  have hlog : ∀ r' ∈ w.page.state.log ++ [r], r'.ok = true → Wrote o es r' := by
    intro r' hmem hok
    rw [List.mem_append, List.mem_singleton] at hmem
    obtain hmem | rfl := hmem
    · exact h.state r' hmem hok
    · exact hwrote hok
  refine Logged.idle ⟨hlog, ?_⟩ (.inl rfl)
  intro s hs
  unfold World.finish at hs
  dsimp only at hs
  split at hs
  · cases hs
    exact hlog
  · exact h.stored s hs

theorem Logged.fail (h : Logged o es w) (hok : w.page.record.ok = false) (message : String) :
    History o es (w.fail message) := by
  unfold World.fail
  dsimp only
  split
  · exact Logged.idle (h.setPage _ rfl) (.inr (.inr (.inl rfl)))
  · exact h.finish fun hgood => absurd (hok.symm.trans hgood) Bool.false_ne_true

theorem Logged.load (h : Logged o es w) : History o es (w.load o) := by
  have hlog : Logged o es (w.load o) := by
    refine ⟨?_, h.stored⟩
    intro r hmem hok
    change r ∈ w.loadSoak.log at hmem
    rw [World.loadSoak] at hmem
    cases hstored : w.storage with
    | none =>
        rw [hstored] at hmem
        exact absurd hmem List.not_mem_nil
    | some s =>
        rw [hstored] at hmem
        exact h.stored s hstored r hmem hok
  refine hlog.idle ?_
  rw [World.load, World.newPage]
  dsimp only
  split
  · exact .inl rfl
  · exact .inr (.inl rfl)

theorem Logged.pollStats (h : Logged o es w) (hok : w.page.record.ok = false) (hphase : w.page.phase = .asking)
    (late : Bool) (startError : Option String) : History o es (w.pollStats o late startError) := by
  unfold World.pollStats
  cases w.page.latestPeerStats with
  | none =>
      cases late with
      | true => exact h.fail hok _
      | false => exact h.idle (.inr (.inl hphase))
  | some before =>
      have hlog : Logged o es { w with nodeIds := w.nodeIds ++ [World.nodeId o w.page.state.cycle] } :=
        ⟨h.state, h.stored⟩
      cases startError with
      | some message => exact hlog.fail hok message
      | none => exact Logged.idle (hlog.setPage _ rfl) (.inr (.inr (.inr ⟨before, rfl⟩)))

theorem passed_wrote (h : Wrote o es r) (sawUnreachable : Bool) :
    Wrote o es (World.passed o sawUnreachable r) := by
  refine h.congr (passed_cycle o sawUnreachable r) ?_ ?_ ?_
  all_goals
    unfold World.passed
    dsimp only
    split <;> split <;> rfl

theorem History.pollCloses (h : History o es w) (hok : w.page.record.ok = false) (hphase : w.page.phase = .closing before)
    (late : Bool) (ms : Nat) : History o es (w.pollCloses o before late ms) := by
  have hwrote : Wrote o es { w.page.record with closeWaitMs := ms } :=
    (h.generated before (.inr hphase)).congr rfl rfl rfl rfl
  have hpage := h.toLogged.setPage { w.page with record := { w.page.record with closeWaitMs := ms } } rfl
  unfold World.pollCloses
  split
  · unfold World.conclude
    dsimp only
    split
    · exact hpage.fail hok _
    · exact hpage.finish fun _ => passed_wrote hwrote _
  · split
    · exact h.toLogged.fail hok _
    · exact h

/-- The answer to `ready`, which empties the buffer. -/
theorem Logged.ready (h : Logged o (es ++ [.ready outcome]) w) (hrun : (soak o).run (soak o).start es = some w)
    (hok : w.page.record.ok = false) : History o (es ++ [.ready outcome]) (w.ready before outcome) := by
  cases outcome with
  | error message => exact h.fail hok message
  | ok ms =>
      refine ⟨h.setPage _ rfl, fun _ _ => ⟨es, [], w, rfl, hrun, rfl, List.not_mem_nil, rfl⟩, ?_⟩
      intro before' hphase
      obtain hphase | hphase := hphase <;> cases hphase

/-- The end of `generate()`, which counts the buffer. -/
theorem History.generate (h : History o es w) (hok : w.page.record.ok = false)
    (hphase : w.page.phase = .generating before) (outcome : Except String Nat) :
    History o (es ++ [.generated outcome]) (w.generated before outcome) := by
  have hlog := h.toLogged.append (.generated outcome)
  cases outcome with
  | error message => exact hlog.fail hok message
  | ok ms =>
      have hpage := hlog.setPage
        { w.page with record := { w.page.record with genMs := ms, chars := w.page.outputBuffer.length } } rfl
      unfold World.generated
      dsimp only
      split
      · exact hpage.fail hok _
      · rename_i hsome
        refine ⟨hpage.setPage _ rfl, fun _ hother => Phase.noConfusion hother, fun _ _ => ?_⟩
        exact ⟨es, [], _, rfl, h.generating before hphase, rfl, Nat.pos_of_ne_zero hsome⟩

theorem History.stop (h : History o es w) (hok : w.page.record.ok = false) (hphase : w.page.phase = .stopping before)
    (outcome : Except String Nat) : History o es (w.stopped before outcome) := by
  have hpage := h.toLogged.setPage { w.page with started := false } rfl
  cases outcome with
  | error message => exact hpage.fail hok message
  | ok ms =>
      refine ⟨hpage.setPage _ rfl, fun _ hother => Phase.noConfusion hother, fun _ _ => ?_⟩
      exact (h.generated before (.inl hphase)).congr rfl rfl rfl rfl

/-- What leaves the page's cycle alone. -/
theorem History.noted (h : History o es w) (hload : e ≠ .load) (hlog : Logged o (es ++ [e]) w')
    (hphase : w'.page.phase = w.page.phase) (hrecord : w'.page.record = w.page.record)
    (hbuffer : w'.page.outputBuffer = w.page.outputBuffer ++ said [e]) : History o (es ++ [e]) w' where
  toLogged := hlog
  generating before hgenerating := by
    rw [hrecord, hbuffer]
    exact (h.generating before (hphase ▸ hgenerating)).append hload
  generated before hgenerated := by
    rw [hrecord]
    exact (h.generated before (hphase ▸ hgenerated)).append e

/-- What touches neither the page nor the log. -/
theorem History.apart (h : History o es w) (hload : e ≠ .load) (hsaid : said [e] = []) (hpage : w'.page = w.page)
    (hstorage : ∀ s ∈ w'.storage, s ∈ w.storage) : History o (es ++ [e]) w' := by
  have hlog := h.toLogged.append e
  refine h.noted hload ⟨?_, fun s hs => hlog.stored s (hstorage s hs)⟩ ?_ ?_ ?_
  · rw [hpage]
    exact hlog.state
  · rw [hpage]
  · rw [hpage]
  · rw [hpage, hsaid, List.append_nil]

theorem History.publish (h : History o es w) (hload : e ≠ .load) (hsaid : said [e] = [])
    (managers : List PeerManager.Manager) (counts : List Nat) :
    History o (es ++ [e]) ({ w with managers }.publish counts) := by
  unfold World.publish
  split
  · exact h.apart hload hsaid rfl fun _ hs => hs
  · exact h.apart hload hsaid rfl fun _ hs => hs

/-! ### Every run -/

theorem History.start (o : Setting) : History o [] (soak o).start := by
  have hempty : Logged o [] (soak o).start :=
    ⟨fun r hmem => absurd hmem List.not_mem_nil, fun s hs => absurd hs (Option.not_mem_none s)⟩
  exact hempty.load

theorem History.step (h : History o es w) (hrun : (soak o).run (soak o).start es = some w)
    (hstep : w.step o e = some w') : History o (es ++ [e]) w' := by
  have hinv : Inv o w := inv_of_reachable ⟨es, hrun⟩
  have hlog := h.toLogged.append e
  have hunfinished : ∀ phase, w.page.phase = phase → phase ≠ .returned → w.page.record.ok = false :=
    fun phase hphase hne => (hinv.busy_of hphase hne).unfinished
  cases step_moves hstep with
  | peerLoad => exact h.apart Event.noConfusion rfl rfl fun _ hs => hs
  | peerStart | peer | query => exact h.publish Event.noConfusion rfl _ _
  | fdstats count rest hcontrol =>
      exact h.noted Event.noConfusion ⟨hlog.state, hlog.stored⟩ rfl rfl (List.append_nil _).symm
  | load => exact hlog.load
  | resetSoak => exact h.apart Event.noConfusion rfl rfl fun s hs => absurd hs (Option.not_mem_none s)
  | storage writable => exact h.apart Event.noConfusion rfl rfl fun _ hs => hs
  | pollStats late startError ms hphase =>
      exact hlog.pollStats (hunfinished _ hphase Phase.noConfusion) hphase late startError
  | pollCloses before late startError ms hphase =>
      refine History.pollCloses ?_ (hunfinished _ hphase Phase.noConfusion) hphase late ms
      exact h.noted Event.noConfusion hlog rfl rfl (List.append_nil _).symm
  | ready before outcome hphase => exact hlog.ready hrun (hunfinished _ hphase Phase.noConfusion)
  | generated before outcome hphase => exact h.generate (hunfinished _ hphase Phase.noConfusion) hphase outcome
  | stopped before outcome hphase =>
      refine History.stop ?_ (hunfinished _ hphase Phase.noConfusion) hphase outcome
      exact h.noted Event.noConfusion hlog rfl rfl (List.append_nil _).symm
  | cleaned outcome hphase =>
      refine Logged.finish (hlog.setPage _ rfl) fun hgood => absurd hgood ?_
      rw [hunfinished _ hphase Phase.noConfusion]
      exact Bool.false_ne_true
  | noted e page hload hbuffer hstate hrecord hphase _ _ =>
      exact h.noted hload (hlog.setPage page hstate) hphase hrecord hbuffer

theorem history_of_run (hrun : (soak o).run (soak o).start es = some w) : History o es w :=
  Transition.run_history_along (C := fun _ _ => True) (P := History o) (History.start o)
    (fun _ _ _ _ hrun h _ hstep => h.step hrun hstep) (Transition.along_of_forall (fun _ _ => trivial) _ _) hrun

/-- **The soak log can be trusted.** -/
theorem soak_honest (o : Setting) (es : List Event) (w : World) (hrun : (soak o).run (soak o).start es = some w) :
    ∀ s ∈ w.storage, Valid o w.managers s ∧ ∀ r ∈ s.log, r.ok = true → Wrote o es r := by
  intro s hs
  exact ⟨(inv_of_reachable ⟨es, hrun⟩).stored s hs, (history_of_run hrun).stored s hs⟩

def oneCycle : Setting := ⟨number 2, number 5000, "req", "peer-1", 8⟩

/-- A cycle against a peer that closes what it has accepted; then the page is loaded again. -/
def oneCycleRun : List Event :=
  [.peerStart, .onText [63], .fdstats, .poll false none 0, .peer 0 (.accept 0),
    .peer 0 (.message ⟨"req-c0", "peer-1", .connect⟩), .ready (.ok 10), .onText [72, 105], .generated (.ok 20),
    .stopped (.ok 30), .peer 0 (.closeConnection 0), .fdstats, .fdstats, .fdstats, .fdstats, .poll false none 40,
    .load]

theorem soak_honest_oneCycle : ∃ w : World, (w.storage.map fun s => s.log.map fun r => (r.ok, r.chars)) =
    some [(true, 2)] ∧ ∀ s ∈ w.storage, Valid oneCycle w.managers s ∧
      ∀ r ∈ s.log, r.ok = true → Wrote oneCycle oneCycleRun r := by
  have hrun : (soak oneCycle).run (soak oneCycle).start oneCycleRun = some _ := rfl
  exact ⟨_, by decide, soak_honest oneCycle oneCycleRun _ hrun⟩

end LlmRuntime.Soak
