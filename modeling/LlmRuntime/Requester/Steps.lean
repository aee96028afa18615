import LlmRuntime.Requester.Model

/-!
# What one event does

`Moves` spells the steps out: one constructor for each way an event can be taken, with its guard and
the state it leads to as a record update. The composed callbacks are brought into that form first. All
results about runs go through `step_moves` and never unfold the adapter's functions again.
-/

namespace LlmRuntime.Requester

open Transition

namespace State

/-! ### Closed forms -/

/-- The calls after the running generation, if there is one, has been settled. -/
def endedCalls (s : State) (outcome : Promise) : List Call :=
  match s.activeGeneration with
  | none => s.calls
  | some done => s.calls.modify done (Call.settle outcome)

theorem abortGeneration_eq (s : State) (error : String) :
    s.abortGeneration error =
      { s with
        activeGeneration := none
        cancelRequested := s.cancelRequested && s.activeGeneration.isNone
        calls := s.endedCalls (.rejected error) } := by
  unfold abortGeneration endedCalls
  cases h : s.activeGeneration with
  | none =>
      cases s
      simp_all
  | some done => simp [settleGeneration, clearActive]

theorem fail_eq (s : State) (error : String) :
    s.fail error =
      { s with
        ready := s.ready.settleReject error
        exited := s.exited.settleReject error
        activeGeneration := none
        cancelRequested := s.cancelRequested && s.activeGeneration.isNone
        calls := s.endedCalls (.rejected error)
        effects := s.effects ++ [.onError error] } := by
  simp only [fail, abortGeneration_eq, rejectReady, emit, rejectExited, endedCalls]

theorem endGeneration_eq (s : State) :
    s.endGeneration =
      { s with
        activeGeneration := none
        cancelRequested := s.cancelRequested && s.activeGeneration.isNone
        calls := s.endedCalls (if s.stopRequested then .rejected stopError else .resolved) } := by
  unfold endGeneration endedCalls
  cases h : s.activeGeneration with
  | none =>
      cases s
      simp_all
  | some done =>
      cases hstop : s.stopRequested
      · simp [settleGeneration, clearActive, hstop]
      · simp [abortGeneration_eq, endedCalls, h, hstop]

theorem pendingPrompt_eq (s : State) :
    s.pendingPrompt =
      { s with
        callbacks := s.callbacks + 1
        ready := s.ready.settleResolve
        activeGeneration := none
        cancelRequested := s.cancelRequested && s.activeGeneration.isNone
        calls := s.endedCalls (if s.stopRequested then .rejected stopError else .resolved)
        promptWaiter := if s.stopRequested then s.promptWaiter else some s.callbacks
        effects := if s.stopRequested then s.effects ++ [.answer s.callbacks []] else s.effects } := by
  unfold pendingPrompt
  split
  all_goals simp_all [endGeneration_eq, takeCallback, resolveReady, emit, park, endedCalls]

theorem onExit_eq (s : State) (code : Int) :
    s.onExit code =
      { s with
        stopped := true
        chunkCache := s.chunkCache.close
        ready := if s.stopRequested then s.ready else s.ready.settleReject (exitError code)
        exited :=
          if s.stopRequested then s.exited.settleResolve else s.exited.settleReject (exitError code)
        activeGeneration := none
        cancelRequested := s.cancelRequested && s.activeGeneration.isNone
        calls := s.endedCalls (.rejected (if s.stopRequested then stopError else exitError code))
        effects :=
          if s.stopRequested then s.effects else s.effects ++ [.onError (exitError code)] } := by
  unfold onExit
  split
  all_goals
    simp_all [abortGeneration_eq, fail_eq, markStopped, closeChunkCache, resolveExited, endedCalls]

theorem startupFailed_eq (s : State) (error : String) :
    s.startupFailed error =
      { s with
        startup := .ended
        chunkCache := s.chunkCache.close
        ready := s.ready.settleReject error
        exited := s.exited.settleReject error
        activeGeneration := none
        cancelRequested := s.cancelRequested && s.activeGeneration.isNone
        calls := s.endedCalls (.rejected error)
        effects := s.effects ++ [.onError error] } := by
  simp only [startupFailed, fail_eq, setStartup, closeChunkCache, endedCalls]

theorem finishStop_eq (s : State) (stop : Nat) (clean : Bool) :
    s.finishStop stop clean =
      { s with
        chunkCache := if clean then s.chunkCache else s.chunkCache.close
        ready := s.ready.settleReject "requester Runtime was stopped before it became ready"
        activeGeneration := none
        cancelRequested := s.cancelRequested && s.activeGeneration.isNone
        calls := s.endedCalls (.rejected stopError)
        stops := s.stops.set stop .returned } := by
  cases clean <;>
    simp [finishStop, abortGeneration_eq, rejectReady, setStop, closeChunkCache, endedCalls]

theorem cancel_eq (s : State) :
    s.cancel = { s with cancelRequested := s.cancelRequested || s.activeGeneration.isSome } := by
  unfold cancel
  cases h : s.activeGeneration <;> cases s <;> simp_all [requestCancel]

theorem stop_eq (s : State) :
    s.stop =
      { s with
        stopRequested := true
        cancelRequested := true
        promptWaiter := none
        stops := s.stops ++ [.waiting false]
        effects := s.effects ++ s.promptWaiter.toList.map fun cb => .answer cb [] } := by
  cases h : s.promptWaiter <;>
    simp [stop, deliverPrompt, requestStop, addStop, clearWaiter, emit, h]

end State

/-! ### The steps, spelled out -/

/-- What was encoded is the non-empty string the caller passed, and it fits the Runtime's buffer. -/
def Call.Encoded (contextSize : Nat) (c : Call) : Prop :=
  ∃ text, c.prompt = some text ∧ text ≠ "" ∧ c.encoded = utf8BinaryString text ∧
    c.encoded.length < contextSize

/-- `generate()` refuses a prompt before its `await`. -/
def Refuses (contextSize : Nat) (s : State) : Option String → String → Prop
  | none, error => error = "prompt must be a non-empty string"
  | some text, error =>
      if text = "" then error = "prompt must be a non-empty string"
      else if s.stopRequested || s.stopped then error = stoppingError
      else encodePromptForRuntime text contextSize "prompt" = .error error

inductive Moves (contextSize : Nat) (s : State) : Event → State → Prop where
  | startupFailed (error : String) (h : s.startup ≠ .ended) :
      Moves contextSize s (.startup (.error error))
        { s with
          startup := .ended
          chunkCache := s.chunkCache.close
          ready := s.ready.settleReject error
          exited := s.exited.settleReject error
          activeGeneration := none
          cancelRequested := s.cancelRequested && s.activeGeneration.isNone
          calls := s.endedCalls (.rejected error)
          effects := s.effects ++ [.onError error] }
  | imported (h : s.startup = .importing) :
      Moves contextSize s (.startup (.ok ())) { s with startup := .openingCache }
  | cacheOpened (h : s.startup = .openingCache) :
      Moves contextSize s (.startup (.ok ()))
        { s with startup := .preparingModel, chunkCache := .opened }
  | startRefused (h : s.startup = .preparingModel) (hstop : s.stopRequested = true) :
      Moves contextSize s (.startup (.ok ()))
        { s with
          startup := .ended
          stopped := true
          chunkCache := s.chunkCache.close
          exited := s.exited.settleResolve }
  | started (h : s.startup = .preparingModel) (hstop : s.stopRequested = false) :
      Moves contextSize s (.startup (.ok ()))
        { s with
          startup := .awaitingFactory
          factoryCalled := true
          effects := s.effects ++ [.invokeFactory] }
  | factoryResolved (h : s.startup = .awaitingFactory) :
      Moves contextSize s (.startup (.ok ()))
        { s with
          startup := .ended
          effects :=
            if s.stopRequested && s.factoryCalled then s.effects ++ [.forceExit] else s.effects }
  | pendingPrompt (hfactory : s.factoryCalled = true) (hwaiter : s.promptWaiter = none) :
      Moves contextSize s .pendingPrompt
        { s with
          callbacks := s.callbacks + 1
          ready := s.ready.settleResolve
          activeGeneration := none
          cancelRequested := s.cancelRequested && s.activeGeneration.isNone
          calls := s.endedCalls (if s.stopRequested then .rejected stopError else .resolved)
          promptWaiter := if s.stopRequested then s.promptWaiter else some s.callbacks
          effects :=
            if s.stopRequested then s.effects ++ [.answer s.callbacks []] else s.effects }
  | onExit (code : Int) (hfactory : s.factoryCalled = true) :
      Moves contextSize s (.onExit code)
        { s with
          stopped := true
          chunkCache := s.chunkCache.close
          ready := if s.stopRequested then s.ready else s.ready.settleReject (exitError code)
          exited :=
            if s.stopRequested then s.exited.settleResolve
            else s.exited.settleReject (exitError code)
          activeGeneration := none
          cancelRequested := s.cancelRequested && s.activeGeneration.isNone
          calls := s.endedCalls (.rejected (if s.stopRequested then stopError else exitError code))
          effects :=
            if s.stopRequested then s.effects else s.effects ++ [.onError (exitError code)] }
  | onAbort (reason : String) (hfactory : s.factoryCalled = true) :
      Moves contextSize s (.onAbort reason)
        { s with
          ready := s.ready.settleReject (abortError reason)
          exited := s.exited.settleReject (abortError reason)
          activeGeneration := none
          cancelRequested := s.cancelRequested && s.activeGeneration.isNone
          calls := s.endedCalls (.rejected (abortError reason))
          effects := s.effects ++ [.onError (abortError reason)] }
  | refused (prompt : Option String) (error : String) (h : Refuses contextSize s prompt error) :
      Moves contextSize s (.generate prompt)
        { s with calls := s.calls ++ [⟨prompt, [], .rejected error⟩] }
  | suspended (prompt : Option String) (encoded : List UInt8) (hstop : s.stopRequested = false)
      (hstopped : s.stopped = false) (h : Call.Encoded contextSize ⟨prompt, encoded, .awaitingReady⟩) :
      Moves contextSize s (.generate prompt)
        { s with calls := s.calls ++ [⟨prompt, encoded, .awaitingReady⟩] }
  | resumeRefused (g : Nat) (error : String) (hg : s.promise g = some .awaitingReady)
      (hready : s.ready ≠ .pending) :
      Moves contextSize s (.resumeGenerate g)
        { s with calls := s.calls.modify g fun c => { c with promise := .rejected error } }
  | handedOver (g cb : Nat) (call : Call) (hcall : s.calls[g]? = some call)
      (hwait : call.promise = .awaitingReady) (hready : s.ready = .resolved)
      (hstop : s.stopRequested = false) (hstopped : s.stopped = false)
      (hidle : s.activeGeneration = none) (hwaiter : s.promptWaiter = some cb) :
      Moves contextSize s (.resumeGenerate g)
        { s with
          activeGeneration := some g
          cancelRequested := false
          promptWaiter := none
          calls := s.calls.modify g fun c => { c with promise := .generating }
          effects := s.effects ++ [.answer cb call.encoded] }
  | cancel :
      Moves contextSize s .cancel
        { s with cancelRequested := s.cancelRequested || s.activeGeneration.isSome }
  | stop :
      Moves contextSize s .stop
        { s with
          stopRequested := true
          cancelRequested := true
          promptWaiter := none
          stops := s.stops ++ [.waiting false]
          effects := s.effects ++ s.promptWaiter.toList.map fun cb => .answer cb [] }
  | expired (stop : Nat) (hexited : s.exited = .pending) (h : s.stops[stop]? = some (.waiting false)) :
      Moves contextSize s (.stopTimer stop) { s with stops := s.stops.set stop (.waiting true) }
  | forcedExpired (stop : Nat) (hexited : s.exited = .pending)
      (h : s.stops[stop]? = some (.forced false)) :
      Moves contextSize s (.stopTimer stop) { s with stops := s.stops.set stop (.forced true) }
  | closeThrew (stop : Nat) (error : String) (h : s.stops[stop]? = some (.waiting true)) :
      Moves contextSize s (.resumeStop stop (.error error))
        { s with
          stops := s.stops.set stop (.threw error)
          effects := s.effects ++ [.closePeerManager] }
  | forced (stop : Nat) (h : s.stops[stop]? = some (.waiting true)) :
      Moves contextSize s (.resumeStop stop (.ok ()))
        { s with
          stops := s.stops.set stop (.forced false)
          effects :=
            if s.factoryCalled then s.effects ++ [.closePeerManager] ++ [.forceExit]
            else s.effects ++ [.closePeerManager] }
  /-- The rest of `stop()` after a wait that ended: `clean` unless it is the second one's timer. -/
  | finished (stop : Nat) (close : Except String Unit) (clean : Bool)
      (h : if clean then s.exited ≠ .pending ∧
          (s.stops[stop]? = some (.waiting false) ∨ s.stops[stop]? = some (.forced false))
        else s.stops[stop]? = some (.forced true)) :
      Moves contextSize s (.resumeStop stop close)
        { s with
          chunkCache := if clean then s.chunkCache else s.chunkCache.close
          ready := s.ready.settleReject "requester Runtime was stopped before it became ready"
          activeGeneration := none
          cancelRequested := s.cancelRequested && s.activeGeneration.isNone
          calls := s.endedCalls (.rejected stopError)
          stops := s.stops.set stop .returned }

variable {contextSize : Nat} {s t : State}

theorem startupStep_moves {result : Except String Unit} (h : s.startupStep result = some t) :
    Moves contextSize s (.startup result) t := by
  unfold State.startupStep at h
  split at h
  · cases h
  · rename_i error hended
    cases h
    rw [State.startupFailed_eq]
    exact .startupFailed error hended
  · rename_i hstartup
    cases h
    exact .imported hstartup
  · rename_i hstartup
    cases h
    exact .cacheOpened hstartup
  · rename_i hstartup
    cases h
    unfold State.modelPrepared
    split
    · rename_i hstop
      exact .startRefused hstartup hstop
    · rename_i hstop
      exact .started hstartup (by simpa using hstop)
  · rename_i hstartup
    cases h
    have heq : s.factoryResolved = { s with
        startup := .ended
        effects :=
          if s.stopRequested && s.factoryCalled then s.effects ++ [.forceExit] else s.effects } := by
      unfold State.factoryResolved State.safeForceExit
      cases hstop : s.stopRequested <;> cases hfactory : s.factoryCalled <;>
        simp [State.setStartup, State.emit, hstop, hfactory]
    rw [heq]
    exact .factoryResolved hstartup

theorem generate_moves (prompt : Option String) :
    Moves contextSize s (.generate prompt) (s.generate contextSize prompt) := by
  unfold State.generate
  cases prompt with
  | none => exact .refused _ _ rfl
  | some text =>
      dsimp only
      split
      · rename_i hempty
        exact .refused _ _ (by simp [Refuses, hempty])
      · rename_i hempty
        split
        · rename_i hstop
          exact .refused _ _ (by rw [Refuses, if_neg hempty, if_pos hstop])
        · rename_i hstop
          split
          · rename_i error herror
            exact .refused _ _ (by rw [Refuses, if_neg hempty, if_neg hstop, herror])
          · rename_i encoded hencoded
            simp only [Bool.or_eq_true, not_or, Bool.not_eq_true] at hstop
            refine .suspended _ _ hstop.1 hstop.2 ⟨text, rfl, hempty, ?_⟩
            simp only [encodePromptForRuntime] at hencoded
            split at hencoded
            · cases hencoded
            · rename_i hlength
              cases hencoded
              exact ⟨rfl, by simpa using hlength⟩

theorem resumeGenerate_moves {g : Nat} (h : s.resumeGenerate g = some t) :
    Moves contextSize s (.resumeGenerate g) t := by
  unfold State.resumeGenerate at h
  split at h
  · rename_i prompt encoded hcall
    have hg : s.promise g = some .awaitingReady := by simp only [State.promise, hcall, Option.map_some]
    split at h
    · cases h
    · rename_i error hready
      cases h
      exact .resumeRefused g error hg (by simp [hready])
    · rename_i hready
      have hsettled : s.ready ≠ .pending := by simp [hready]
      cases h
      unfold State.startGeneration
      split
      · exact .resumeRefused g _ hg hsettled
      · rename_i hstop
        split
        · exact .resumeRefused g _ hg hsettled
        · rename_i hidle
          cases hwaiter : s.promptWaiter with
          | none => exact .resumeRefused g _ hg hsettled
          | some cb =>
              simp only [Bool.or_eq_true, not_or, Bool.not_eq_true, Option.isSome_eq_false_iff,
                Option.isNone_iff_eq_none] at hstop hidle
              have hmove : Moves contextSize s (.resumeGenerate g) _ :=
                .handedOver g cb _ hcall rfl hready hstop.1 hstop.2 hidle hwaiter
              simpa [State.deliverPrompt, State.activate, State.clearWaiter, State.emit,
                State.setPromise, hwaiter] using hmove
  · cases h

theorem stopTimer_moves {stop : Nat} (h : s.stopTimer stop = some t) :
    Moves contextSize s (.stopTimer stop) t := by
  unfold State.stopTimer at h
  split at h
  · rename_i hexited
    split at h
    · rename_i hstop
      cases h
      exact .expired stop hexited hstop
    · rename_i hstop
      cases h
      exact .forcedExpired stop hexited hstop
    · cases h
  · cases h

theorem forceStop_moves {stop : Nat} {close : Except String Unit}
    (h : s.stops[stop]? = some (.waiting true)) :
    Moves contextSize s (.resumeStop stop close) (s.forceStop stop close) := by
  unfold State.forceStop
  cases close with
  | error error => exact .closeThrew stop error h
  | ok _ =>
      have hmove := @Moves.forced contextSize s stop h
      cases hfactory : s.factoryCalled <;>
        simpa [State.safeForceExit, State.emit, State.setStop, hfactory] using hmove

theorem resumeStop_moves {stop : Nat} {close : Except String Unit}
    (h : s.resumeStop stop close = some t) : Moves contextSize s (.resumeStop stop close) t := by
  unfold State.resumeStop at h
  split at h
  · rename_i expired hstop
    cases expired
    · simp only [Bool.false_eq_true, if_false, Option.ite_none_right_eq_some, Option.some.injEq] at h
      obtain ⟨hexited, rfl⟩ := h
      rw [State.finishStop_eq]
      exact .finished stop close true (by simp [hexited, hstop])
    · cases h
      exact forceStop_moves hstop
  · rename_i expired hstop
    cases expired
    · simp only [Bool.false_eq_true, if_false, Option.ite_none_right_eq_some, Option.some.injEq] at h
      obtain ⟨hexited, rfl⟩ := h
      rw [State.finishStop_eq]
      exact .finished stop close true (by simp [hexited, hstop])
    · cases h
      rw [State.finishStop_eq]
      exact .finished stop close false (by simp [hstop])
  · cases h

/-- **What a step can do.** -/
theorem step_moves {e : Event} (h : step contextSize s e = some t) : Moves contextSize s e t := by
  cases e with
  | startup result => exact startupStep_moves h
  | pendingPrompt =>
      simp only [step, Option.ite_none_right_eq_some, Option.some.injEq] at h
      obtain ⟨⟨hfactory, hwaiter⟩, rfl⟩ := h
      rw [State.pendingPrompt_eq]
      exact .pendingPrompt hfactory hwaiter
  | onExit code =>
      simp only [step, Option.ite_none_right_eq_some, Option.some.injEq] at h
      obtain ⟨hfactory, rfl⟩ := h
      rw [State.onExit_eq]
      exact .onExit code hfactory
  | onAbort reason =>
      simp only [step, Option.ite_none_right_eq_some, Option.some.injEq] at h
      obtain ⟨hfactory, rfl⟩ := h
      rw [State.onAbort, State.fail_eq]
      exact .onAbort reason hfactory
  | generate prompt =>
      cases h
      exact generate_moves prompt
  | resumeGenerate g => exact resumeGenerate_moves h
  | cancel =>
      cases h
      rw [State.cancel_eq]
      exact .cancel
  | stop =>
      cases h
      rw [State.stop_eq]
      exact .stop
  | stopTimer stop => exact stopTimer_moves h
  | resumeStop stop close => exact resumeStop_moves h

end LlmRuntime.Requester
