import LlmRuntime.Requester.Model

/-!
# The peer adapter

`startPeer` of `runtime/llmlet-runtime.js`, in the same form as `startRequester`: its closure variables
are the fields of `State`, what the environment does is an `Event`. There is no model to prepare and no
prompt to hand over; `stop()` calls `peerManager.close()` and `safeForceExit` first and waits once.
-/

namespace LlmRuntime.Peer

open Requester (Deferred CacheHandle)

/-- The `await` the startup task is suspended at. -/
inductive Startup where
  | importing
  | openingCache
  | awaitingFactory
  | ended
  deriving DecidableEq, Repr

/-- A `stop()` call: in its `waitOrTimeout`, or settled. `expired` records that the timer won. -/
inductive Stop where
  | waiting (expired : Bool)
  | returned
  | threw (error : String)
  deriving DecidableEq, Repr

inductive Effect where
  | onError (error : String)
  | invokeFactory
  | closePeerManager
  | forceExit
  deriving DecidableEq, Repr

structure State where
  startup : Startup
  chunkCache : CacheHandle
  factoryCalled : Bool
  ready : Deferred
  exited : Deferred
  stopping : Bool
  stops : List Stop
  effects : List Effect
  deriving DecidableEq, Repr

inductive Event where
  /-- The startup task's current `await` settles. -/
  | startup (result : Except String Unit)
  | onRuntimeInitialized
  | onExit (code : Int)
  | onAbort (reason : String)
  /-- A `stop()` call. `close` is what `peerManager.close()` does. -/
  | stop (close : Except String Unit)
  /-- The timer of the given `stop()` call fires. -/
  | stopTimer (stop : Nat)
  /-- The `waitOrTimeout` of the given `stop()` call continues. -/
  | resumeStop (stop : Nat)

def initial : State where
  startup := .importing
  chunkCache := .absent
  factoryCalled := false
  ready := .pending
  exited := .pending
  stopping := false
  stops := []
  effects := []

def exitError (code : Int) : String := s!"peer Runtime exited unexpectedly with code {code}"

def abortError (reason : String) : String := s!"peer Runtime aborted: {reason}"

namespace State

@[simps] def emit (s : State) (effect : Effect) : State := { s with effects := s.effects ++ [effect] }

@[simps] def resolveReady (s : State) : State := { s with ready := s.ready.settleResolve }

@[simps] def rejectReady (s : State) (error : String) : State :=
  { s with ready := s.ready.settleReject error }

@[simps] def resolveExited (s : State) : State := { s with exited := s.exited.settleResolve }

@[simps] def rejectExited (s : State) (error : String) : State :=
  { s with exited := s.exited.settleReject error }

@[simps] def closeChunkCache (s : State) : State := { s with chunkCache := s.chunkCache.close }

@[simps] def setStartup (s : State) (startup : Startup) : State := { s with startup }

@[simps] def openChunkCache (s : State) : State := { s with chunkCache := .opened }

@[simps] def callFactory (s : State) : State := { s with factoryCalled := true }

def fail (s : State) (error : String) : State :=
  ((s.emit (.onError error)).rejectReady error).rejectExited error

/-- `safeForceExit`. Before the factory ran, the Module has no `_emscripten_force_exit`. An `onExit` it
causes is an event of its own. -/
def safeForceExit (s : State) : State := if s.factoryCalled then s.emit .forceExit else s

/-- `Module.onExit`. -/
def onExit (s : State) (code : Int) : State :=
  if s.stopping then s.closeChunkCache.resolveExited else s.closeChunkCache.fail (exitError code)

/-- `Module.onAbort`. -/
def onAbort (s : State) (reason : String) : State := s.fail (abortError reason)

/-- The `catch` of the startup task. -/
def startupFailed (s : State) (error : String) : State :=
  ((s.setStartup .ended).closeChunkCache).fail error

/-- The startup task from `await openChunkCache` on: refuse to start after a `stop()`, else call the
factory. -/
def cacheOpened (s : State) : State :=
  if s.stopping then (s.openChunkCache.setStartup .ended).closeChunkCache.resolveExited
  else (s.openChunkCache.setStartup .awaitingFactory).callFactory.emit .invokeFactory

/-- The startup task from `await moduleFactory.default(Module)` on. -/
def factoryResolved (s : State) : State :=
  if s.stopping then (s.setStartup .ended).safeForceExit else (s.setStartup .ended).resolveReady

def startupStep (s : State) (result : Except String Unit) : Option State :=
  match s.startup, result with
  | .ended, _ => none
  | _, .error error => some (s.startupFailed error)
  | .importing, .ok _ => some (s.setStartup .openingCache)
  | .openingCache, .ok _ => some s.cacheOpened
  | .awaitingFactory, .ok _ => some s.factoryResolved

@[simps] def requestStop (s : State) : State := { s with stopping := true }

@[simps] def addStop (s : State) (stop : Stop) : State := { s with stops := s.stops ++ [stop] }

@[simps] def setStop (s : State) (stop : Nat) (phase : Stop) : State :=
  { s with stops := s.stops.set stop phase }

/-- `stop()` up to its `await`. `safeForceExit` stands in a `finally`. -/
def stop (s : State) (close : Except String Unit) : State :=
  ((s.requestStop.emit .closePeerManager).safeForceExit).addStop
    (match close with
    | .error error => .threw error
    | .ok _ => .waiting false)

/-- A timer that fires after `exited` has settled decides nothing: that race is already won. -/
def stopTimer (s : State) (stop : Nat) : Option State :=
  if s.exited = .pending ∧ s.stops[stop]? = some (.waiting false) then
    some (s.setStop stop (.waiting true))
  else none

/-- The end of `stop()`. -/
def finishStop (s : State) (stop : Nat) (clean : Bool) : State :=
  ((if clean then s else s.closeChunkCache).rejectReady
    "peer Runtime was stopped before it became ready").setStop stop .returned

def resumeStop (s : State) (stop : Nat) : Option State :=
  match s.stops[stop]? with
  | some (.waiting expired) =>
      if expired then some (s.finishStop stop false)
      else if s.exited ≠ .pending then some (s.finishStop stop true) else none
  | _ => none

end State

/-- One event. The Runtime is there once the factory has been called. -/
def step (s : State) : Event → Option State
  | .startup result => s.startupStep result
  | .onRuntimeInitialized => if s.factoryCalled then some s.resolveReady else none
  | .onExit code => if s.factoryCalled then some (s.onExit code) else none
  | .onAbort reason => if s.factoryCalled then some (s.onAbort reason) else none
  | .stop close => some (s.stop close)
  | .stopTimer stop => s.stopTimer stop
  | .resumeStop stop => s.resumeStop stop

/-- `startPeer`. -/
def peer : Transition State Event where
  start := initial
  step := step

/-- An exit before `stop()` is a failure with any code. -/
example : (peer.run initial
    [.startup (.ok ()), .startup (.ok ()), .startup (.ok ()), .onExit 0, .stop (.ok ()), .resumeStop 0]).map
    (fun s => (s.ready, s.exited, s.chunkCache, s.stops)) =
    some (.resolved, .rejected (exitError 0), .closed, [.returned]) := by
  decide

end LlmRuntime.Peer
