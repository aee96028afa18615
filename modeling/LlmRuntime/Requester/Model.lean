import LlmRuntime.Base.Transition
import Mathlib.Tactic.Simps.Basic

/-!
# The requester adapter

`startRequester` of `runtime/llmlet-runtime.js`. Its closure variables are the fields of `State`, and
each function of the closure is a function on `State` under the source's name. What the environment
does is an `Event`: a `generate()`, `cancel()` or `stop()` call, a callback from C++, the settling of
the startup task's current `await`, an expiring timer, or the continuation of an `await` inside
`generate()` or `stop()`. JavaScript runs each of these to completion, so a run is a list of events.

A call that suspends keeps its own record: `calls` for `generate()`, `stops` for `stop()`. What the
adapter does to the outside is appended to `effects`.
-/

namespace LlmRuntime.Requester

/-- `deferred()`: settled at most once. The payload of a rejection is the error's message. -/
inductive Deferred where
  | pending
  | resolved
  | rejected (error : String)
  deriving DecidableEq, Repr

namespace Deferred

def settleResolve : Deferred → Deferred
  | pending => resolved
  | d => d

def settleReject (error : String) : Deferred → Deferred
  | pending => rejected error
  | d => d

end Deferred

/-- `utf8BinaryString`: one character per UTF-8 byte, kept here as the bytes themselves. -/
def utf8BinaryString (text : String) : List UInt8 := text.toList.flatMap String.utf8EncodeChar

def encodePromptForRuntime (text : String) (contextSize : Nat) (label : String) :
    Except String (List UInt8) :=
  let encoded := utf8BinaryString text
  if encoded.length ≥ contextSize then
    .error s!"{label} is {encoded.length} UTF-8 bytes; the Runtime accepts at most {contextSize - 1}"
  else .ok encoded

/-- The `await` the startup task is suspended at. -/
inductive Startup where
  | importing
  | openingCache
  | preparingModel
  | awaitingFactory
  | ended
  deriving DecidableEq, Repr

/-- `chunkCache`: null, an open IndexedDB connection, or a closed one. -/
inductive CacheHandle where
  | absent
  | opened
  | closed
  deriving DecidableEq, Repr

/-- `chunkCache?.close()`. -/
def CacheHandle.close : CacheHandle → CacheHandle
  | opened => closed
  | c => c

@[simp] theorem CacheHandle.close_ne_opened (c : CacheHandle) : c.close ≠ .opened := by
  cases c <;> decide

/-- The promise a `generate()` call returned. `awaitingReady` is the call suspended at
`await ready.promise`, `generating` the one that returned `generation.promise`, still unsettled. -/
inductive Promise where
  | awaitingReady
  | generating
  | resolved
  | rejected (error : String)
  deriving DecidableEq, Repr

/-- A `generate()` call. `prompt` is none for an argument that is not a string. -/
structure Call where
  prompt : Option String
  encoded : List UInt8
  promise : Promise
  deriving DecidableEq, Repr

/-- `settleResolve` and `settleReject` on the deferred of a generation. -/
def Call.settle (outcome : Promise) (c : Call) : Call :=
  if c.promise = .generating then { c with promise := outcome } else c

/-- A `stop()` call: in its first or its second `waitOrTimeout`, or settled. `expired` records that the
timer won the race against `exited`. -/
inductive Stop where
  | waiting (expired : Bool)
  | forced (expired : Bool)
  | returned
  | threw (error : String)
  deriving DecidableEq, Repr

inductive Effect where
  /-- The `callback`-th callback given to `pending_prompt` was called. -/
  | answer (callback : Nat) (encoded : List UInt8)
  | onError (error : String)
  | invokeFactory
  | closePeerManager
  | forceExit
  deriving DecidableEq, Repr

structure State where
  startup : Startup
  chunkCache : CacheHandle
  factoryCalled : Bool
  ready : Deferred
  exited : Deferred
  /-- How many times C++ has called `pending_prompt`; the next callback's number. -/
  callbacks : Nat
  promptWaiter : Option Nat
  activeGeneration : Option Nat
  cancelRequested : Bool
  stopRequested : Bool
  stopped : Bool
  calls : List Call
  stops : List Stop
  effects : List Effect
  deriving DecidableEq, Repr

inductive Event where
  /-- The startup task's current `await` settles. -/
  | startup (result : Except String Unit)
  | pendingPrompt
  | onExit (code : Int)
  | onAbort (reason : String)
  | generate (prompt : Option String)
  /-- `await ready.promise` in the given `generate()` call continues. -/
  | resumeGenerate (call : Nat)
  | cancel
  | stop
  /-- The timer of the given `stop()` call's current `waitOrTimeout` fires. -/
  | stopTimer (stop : Nat)
  /-- The current `waitOrTimeout` of the given `stop()` call continues. `close` is what
  `peerManager.close()` does if the continuation calls it. -/
  | resumeStop (stop : Nat) (close : Except String Unit)

def initial : State where
  startup := .importing
  chunkCache := .absent
  factoryCalled := false
  ready := .pending
  exited := .pending
  callbacks := 0
  promptWaiter := none
  activeGeneration := none
  cancelRequested := false
  stopRequested := false
  stopped := false
  calls := []
  stops := []
  effects := []

def stopError : String := "generation was interrupted by stop()"

def stoppingError : String := "requester Runtime is stopping/stopped"

def exitError (code : Int) : String := s!"requester Runtime exited unexpectedly with code {code}"

def abortError (reason : String) : String := s!"requester Runtime aborted: {reason}"

namespace State

@[simps] def emit (s : State) (effect : Effect) : State := { s with effects := s.effects ++ [effect] }

@[simps] def resolveReady (s : State) : State := { s with ready := s.ready.settleResolve }

@[simps] def rejectReady (s : State) (error : String) : State :=
  { s with ready := s.ready.settleReject error }

@[simps] def resolveExited (s : State) : State := { s with exited := s.exited.settleResolve }

@[simps] def rejectExited (s : State) (error : String) : State :=
  { s with exited := s.exited.settleReject error }

@[simps] def closeChunkCache (s : State) : State := { s with chunkCache := s.chunkCache.close }

@[simps] def addCall (s : State) (call : Call) : State := { s with calls := s.calls ++ [call] }

/-- The state of the promise the `call`-th `generate()` returned. -/
def promise (s : State) (call : Nat) : Option Promise := s.calls[call]?.map Call.promise

@[simps] def setPromise (s : State) (call : Nat) (promise : Promise) : State :=
  { s with calls := s.calls.modify call fun c => { c with promise } }

/-- `settleResolve` and `settleReject` on a generation's deferred. -/
@[simps] def settleGeneration (s : State) (call : Nat) (outcome : Promise) : State :=
  { s with calls := s.calls.modify call (Call.settle outcome) }

@[simps] def clearActive (s : State) : State :=
  { s with activeGeneration := none, cancelRequested := false }

def abortGeneration (s : State) (error : String) : State :=
  match s.activeGeneration with
  | none => s
  | some done => s.clearActive.settleGeneration done (.rejected error)

def fail (s : State) (error : String) : State :=
  (((s.emit (.onError error)).rejectReady error).abortGeneration error).rejectExited error

@[simps] def clearWaiter (s : State) : State := { s with promptWaiter := none }

/-- The flag says whether a callback was waiting. -/
def deliverPrompt (s : State) (encoded : List UInt8) : Bool × State :=
  match s.promptWaiter with
  | none => (false, s)
  | some cb => (true, s.clearWaiter.emit (.answer cb encoded))

/-- `Module.isDecodingCancel`. -/
def isDecodingCancel (s : State) : Nat := if s.cancelRequested then 1 else 0

/-- `safeForceExit`. Before the factory ran, the Module has no `_emscripten_force_exit`. An `onExit` it
causes is an event of its own. -/
def safeForceExit (s : State) : State := if s.factoryCalled then s.emit .forceExit else s

@[simps] def takeCallback (s : State) : State := { s with callbacks := s.callbacks + 1 }

@[simps] def park (s : State) (cb : Nat) : State := { s with promptWaiter := some cb }

/-- The part of `pending_prompt` that closes the previous generation. -/
def endGeneration (s : State) : State :=
  match s.activeGeneration with
  | none => s
  | some done =>
      if s.stopRequested then s.abortGeneration stopError
      else s.clearActive.settleGeneration done .resolved

/-- `Module.pending_prompt`, called with callback number `s.callbacks`. -/
def pendingPrompt (s : State) : State :=
  if s.stopRequested then s.takeCallback.resolveReady.endGeneration.emit (.answer s.callbacks [])
  else s.takeCallback.resolveReady.endGeneration.park s.callbacks

@[simps] def markStopped (s : State) : State := { s with stopped := true }

/-- `Module.onExit`. -/
def onExit (s : State) (code : Int) : State :=
  if s.stopRequested then (s.markStopped.closeChunkCache.abortGeneration stopError).resolveExited
  else s.markStopped.closeChunkCache.fail (exitError code)

/-- `Module.onAbort`. -/
def onAbort (s : State) (reason : String) : State := s.fail (abortError reason)

@[simps] def setStartup (s : State) (startup : Startup) : State := { s with startup }

@[simps] def openChunkCache (s : State) : State := { s with chunkCache := .opened }

@[simps] def callFactory (s : State) : State := { s with factoryCalled := true }

/-- The `catch` of the startup task. -/
def startupFailed (s : State) (error : String) : State :=
  ((s.setStartup .ended).closeChunkCache).fail error

/-- The startup task from `await prepareModel` on: refuse to start after a `stop()`, else call the
factory. -/
def modelPrepared (s : State) : State :=
  if s.stopRequested then (s.setStartup .ended).markStopped.closeChunkCache.resolveExited
  else (s.setStartup .awaitingFactory).callFactory.emit .invokeFactory

/-- The startup task from `await moduleFactory.default(Module)` on. -/
def factoryResolved (s : State) : State :=
  if s.stopRequested then (s.setStartup .ended).safeForceExit else s.setStartup .ended

def startupStep (s : State) (result : Except String Unit) : Option State :=
  match s.startup, result with
  | .ended, _ => none
  | _, .error error => some (s.startupFailed error)
  | .importing, .ok _ => some (s.setStartup .openingCache)
  | .openingCache, .ok _ => some (s.setStartup .preparingModel).openChunkCache
  | .preparingModel, .ok _ => some s.modelPrepared
  | .awaitingFactory, .ok _ => some s.factoryResolved

/-- `generate()` up to its `await`. -/
def generate (contextSize : Nat) (s : State) (prompt : Option String) : State :=
  match prompt with
  | none => s.addCall ⟨prompt, [], .rejected "prompt must be a non-empty string"⟩
  | some text =>
      if text = "" then s.addCall ⟨prompt, [], .rejected "prompt must be a non-empty string"⟩
      else if s.stopRequested || s.stopped then s.addCall ⟨prompt, [], .rejected stoppingError⟩
      else
        match encodePromptForRuntime text contextSize "prompt" with
        | .error error => s.addCall ⟨prompt, [], .rejected error⟩
        | .ok encoded => s.addCall ⟨prompt, encoded, .awaitingReady⟩

@[simps] def activate (s : State) (call : Nat) : State :=
  { s with activeGeneration := some call, cancelRequested := false }

@[simps] def deactivate (s : State) : State := { s with activeGeneration := none }

/-- `generate()` after `await ready.promise` has been resolved. -/
def startGeneration (s : State) (call : Nat) (encoded : List UInt8) : State :=
  if s.stopRequested || s.stopped then s.setPromise call (.rejected stoppingError)
  else if s.activeGeneration.isSome then s.setPromise call (.rejected "a generation is already running")
  else if s.promptWaiter.isNone then
    s.setPromise call (.rejected "requester is not waiting for a prompt")
  else
    match (s.activate call).deliverPrompt encoded with
    | (true, s) => s.setPromise call .generating
    | (false, s) => s.deactivate.setPromise call (.rejected "failed to deliver prompt to Runtime")

def resumeGenerate (s : State) (call : Nat) : Option State :=
  match s.calls[call]? with
  | some ⟨_, encoded, .awaitingReady⟩ =>
      match s.ready with
      | .pending => none
      | .rejected error => some (s.setPromise call (.rejected error))
      | .resolved => some (s.startGeneration call encoded)
  | _ => none

@[simps] def requestCancel (s : State) : State := { s with cancelRequested := true }

def cancel (s : State) : State := if s.activeGeneration.isSome then s.requestCancel else s

@[simps] def requestStop (s : State) : State :=
  { s with stopRequested := true, cancelRequested := true }

@[simps] def addStop (s : State) : State := { s with stops := s.stops ++ [.waiting false] }

@[simps] def setStop (s : State) (stop : Nat) (phase : Stop) : State :=
  { s with stops := s.stops.set stop phase }

/-- `stop()` up to its first `await`. -/
def stop (s : State) : State := (s.requestStop.deliverPrompt []).2.addStop

/-- A timer that fires after `exited` has settled decides nothing: that race is already won. -/
def stopTimer (s : State) (stop : Nat) : Option State :=
  if s.exited = .pending then
    match s.stops[stop]? with
    | some (.waiting false) => some (s.setStop stop (.waiting true))
    | some (.forced false) => some (s.setStop stop (.forced true))
    | _ => none
  else none

/-- The end of `stop()`: the close of the unclean path and the two backstops. -/
def finishStop (s : State) (stop : Nat) (clean : Bool) : State :=
  (((if clean then s else s.closeChunkCache).abortGeneration stopError).rejectReady
    "requester Runtime was stopped before it became ready").setStop stop .returned

/-- The fallback of `stop()`: `peerManager.close()`, then `safeForceExit` and the second wait. -/
def forceStop (s : State) (stop : Nat) (close : Except String Unit) : State :=
  match close with
  | .error error => (s.emit .closePeerManager).setStop stop (.threw error)
  | .ok _ => (s.emit .closePeerManager).safeForceExit.setStop stop (.forced false)

def resumeStop (s : State) (stop : Nat) (close : Except String Unit) : Option State :=
  match s.stops[stop]? with
  | some (.waiting expired) =>
      if expired then some (s.forceStop stop close)
      else if s.exited ≠ .pending then some (s.finishStop stop true) else none
  | some (.forced expired) =>
      if expired then some (s.finishStop stop false)
      else if s.exited ≠ .pending then some (s.finishStop stop true) else none
  | _ => none

end State

/-- One event. C++ is there once the factory has been called, and it asks for the next prompt only
after its previous callback was answered. -/
def step (contextSize : Nat) (s : State) : Event → Option State
  | .startup result => s.startupStep result
  | .pendingPrompt => if s.factoryCalled ∧ s.promptWaiter = none then some s.pendingPrompt else none
  | .onExit code => if s.factoryCalled then some (s.onExit code) else none
  | .onAbort reason => if s.factoryCalled then some (s.onAbort reason) else none
  | .generate prompt => some (s.generate contextSize prompt)
  | .resumeGenerate call => s.resumeGenerate call
  | .cancel => some s.cancel
  | .stop => some s.stop
  | .stopTimer stop => s.stopTimer stop
  | .resumeStop stop close => s.resumeStop stop close

/-- `startRequester` for a context of `contextSize` bytes. -/
def requester (contextSize : Nat) : Transition State Event where
  start := initial
  step := step contextSize

/-- The longest run of the tests: two answers and a graceful stop. -/
example : ((requester 4096).run initial
    [.startup (.ok ()), .startup (.ok ()), .startup (.ok ()), .startup (.ok ()), .pendingPrompt,
      .generate (some "one"), .resumeGenerate 0, .pendingPrompt, .generate (some "two"),
      .resumeGenerate 1, .stop, .pendingPrompt, .onExit 0, .resumeStop 0 (.ok ())]).map
    (fun s => (s.promise 0, s.promise 1, s.stops, s.effects.getLast?)) =
    some (some .resolved, some (.rejected stopError), [.returned], some (.answer 2 [])) := by
  decide

end LlmRuntime.Requester
