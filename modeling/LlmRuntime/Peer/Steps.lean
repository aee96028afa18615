import LlmRuntime.Peer.Model

/-!
# What one event does to the peer

`Moves` spells the steps out, as for the requester.
-/

namespace LlmRuntime.Peer

open Requester (Deferred CacheHandle)

theorem fail_eq (s : State) (error : String) :
    s.fail error =
      { s with
        ready := s.ready.settleReject error
        exited := s.exited.settleReject error
        effects := s.effects ++ [.onError error] } := by
  simp only [State.fail, State.rejectReady, State.emit, State.rejectExited]

/-- The phase a `stop()` call starts in. -/
def Stop.first : Except String Unit → Stop
  | .error error => .threw error
  | .ok _ => .waiting false

inductive Moves (s : State) : Event → State → Prop where
  | startupFailed (error : String) (h : s.startup ≠ .ended) :
      Moves s (.startup (.error error))
        { s with
          startup := .ended
          chunkCache := s.chunkCache.close
          ready := s.ready.settleReject error
          exited := s.exited.settleReject error
          effects := s.effects ++ [.onError error] }
  | imported (h : s.startup = .importing) :
      Moves s (.startup (.ok ())) { s with startup := .openingCache }
  | startRefused (h : s.startup = .openingCache) (hstop : s.stopping = true) :
      Moves s (.startup (.ok ()))
        { s with startup := .ended, chunkCache := .closed, exited := s.exited.settleResolve }
  | started (h : s.startup = .openingCache) (hstop : s.stopping = false) :
      Moves s (.startup (.ok ()))
        { s with
          startup := .awaitingFactory
          chunkCache := .opened
          factoryCalled := true
          effects := s.effects ++ [.invokeFactory] }
  | factoryResolved (h : s.startup = .awaitingFactory) :
      Moves s (.startup (.ok ()))
        { s with
          startup := .ended
          ready := if s.stopping then s.ready else s.ready.settleResolve
          effects := if s.stopping && s.factoryCalled then s.effects ++ [.forceExit] else s.effects }
  | initialized (hfactory : s.factoryCalled = true) :
      Moves s .onRuntimeInitialized { s with ready := s.ready.settleResolve }
  | onExit (code : Int) (hfactory : s.factoryCalled = true) :
      Moves s (.onExit code)
        { s with
          chunkCache := s.chunkCache.close
          ready := if s.stopping then s.ready else s.ready.settleReject (exitError code)
          exited :=
            if s.stopping then s.exited.settleResolve else s.exited.settleReject (exitError code)
          effects := if s.stopping then s.effects else s.effects ++ [.onError (exitError code)] }
  | onAbort (reason : String) (hfactory : s.factoryCalled = true) :
      Moves s (.onAbort reason)
        { s with
          ready := s.ready.settleReject (abortError reason)
          exited := s.exited.settleReject (abortError reason)
          effects := s.effects ++ [.onError (abortError reason)] }
  | stop (close : Except String Unit) :
      Moves s (.stop close)
        { s with
          stopping := true
          stops := s.stops ++ [Stop.first close]
          effects :=
            if s.factoryCalled then s.effects ++ [.closePeerManager] ++ [.forceExit]
            else s.effects ++ [.closePeerManager] }
  | expired (stop : Nat) (hexited : s.exited = .pending) (h : s.stops[stop]? = some (.waiting false)) :
      Moves s (.stopTimer stop) { s with stops := s.stops.set stop (.waiting true) }
  /-- The rest of `stop()`: `clean` unless its timer won. -/
  | finished (stop : Nat) (clean : Bool) (h : s.stops[stop]? = some (.waiting (!clean)))
      (hexited : clean = true → s.exited ≠ .pending) :
      Moves s (.resumeStop stop)
        { s with
          chunkCache := if clean then s.chunkCache else s.chunkCache.close
          ready := s.ready.settleReject "peer Runtime was stopped before it became ready"
          stops := s.stops.set stop .returned }

variable {s t : State} {e : Event}

theorem startupStep_moves {result : Except String Unit} (h : s.startupStep result = some t) :
    Moves s (.startup result) t := by
  unfold State.startupStep at h
  split at h
  · cases h
  · rename_i error hended
    cases h
    simpa [State.startupFailed, fail_eq] using Moves.startupFailed error hended
  · rename_i hstartup
    cases h
    exact .imported hstartup
  · rename_i hstartup
    cases h
    unfold State.cacheOpened
    split
    · rename_i hstop
      exact .startRefused hstartup hstop
    · rename_i hstop
      exact .started hstartup (by simpa using hstop)
  · rename_i hstartup
    cases h
    have hmove := Moves.factoryResolved hstartup
    unfold State.factoryResolved State.safeForceExit
    cases hstop : s.stopping <;> cases hfactory : s.factoryCalled <;>
      simpa [State.setStartup, State.resolveReady, State.emit, hstop, hfactory] using hmove

theorem onExit_moves {code : Int} (hfactory : s.factoryCalled = true) :
    Moves s (.onExit code) (s.onExit code) := by
  have hmove := Moves.onExit code hfactory
  unfold State.onExit
  cases hstop : s.stopping <;>
    simpa [fail_eq, State.closeChunkCache, State.resolveExited, hstop] using hmove

theorem stop_moves (close : Except String Unit) : Moves s (.stop close) (s.stop close) := by
  have hmove := Moves.stop (s := s) close
  unfold State.stop State.safeForceExit
  cases hfactory : s.factoryCalled <;> cases close <;>
    simpa [State.requestStop, State.emit, State.addStop, Stop.first, hfactory] using hmove

theorem resumeStop_moves {stop : Nat} (h : s.resumeStop stop = some t) : Moves s (.resumeStop stop) t := by
  unfold State.resumeStop at h
  split at h
  · rename_i expired hstop
    cases expired with
    | false =>
        simp only [Bool.false_eq_true, if_false, Option.ite_none_right_eq_some, Option.some.injEq] at h
        obtain ⟨hexited, rfl⟩ := h
        exact .finished stop true hstop fun _ => hexited
    | true =>
        cases h
        exact .finished stop false hstop nofun
  · cases h

/-- **What a step can do.** -/
theorem step_moves (h : step s e = some t) : Moves s e t := by
  cases e with
  | startup result => exact startupStep_moves h
  | onRuntimeInitialized =>
      simp only [step, Option.ite_none_right_eq_some, Option.some.injEq] at h
      obtain ⟨hfactory, rfl⟩ := h
      exact .initialized hfactory
  | onExit code =>
      simp only [step, Option.ite_none_right_eq_some, Option.some.injEq] at h
      obtain ⟨hfactory, rfl⟩ := h
      exact onExit_moves hfactory
  | onAbort reason =>
      simp only [step, Option.ite_none_right_eq_some, Option.some.injEq] at h
      obtain ⟨hfactory, rfl⟩ := h
      rw [State.onAbort, fail_eq]
      exact .onAbort reason hfactory
  | stop close =>
      cases h
      exact stop_moves close
  | stopTimer stop =>
      simp only [step, State.stopTimer, Option.ite_none_right_eq_some, Option.some.injEq] at h
      obtain ⟨⟨hexited, hstop⟩, rfl⟩ := h
      exact .expired stop hexited hstop
  | resumeStop stop => exact resumeStop_moves h

end LlmRuntime.Peer
