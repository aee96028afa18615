import LlmRuntime.PeerManager.Stats
import Mathlib.Order.WithBot
import Mathlib.Algebra.Order.Field.Rat

/-!
# The soak of the Runtime harness

`runAutoCycle` of `harness/runtime-only/index.html` with what it stands on: the soak log that
`localStorage` keeps over reloads, the control channel on which the peer's page tells its `fdStats`, and
the peer's managers. The requester's Runtime is taken by what its promises and callbacks bring. Both pages
can be loaded again at any moment, and the peer can be stopped and started, with a new manager each time.

There is one peer page. A message on its way to the requester is what `totalsOf` makes of its rows.
-/

namespace LlmRuntime.Soak

open PeerManager (Manager closings)

/-- UTF-16 code units. -/
abbrev Text := List UInt16

/-- What `num` makes of a parameter of the address: any number but zero and `NaN`. -/
abbrev Number := WithBot (WithTop ℚ)

/-- A count or a time as a number. -/
def number (n : Nat) : Number := ((n : ℚ) : WithTop ℚ)

theorem number_lt_number {m n : Nat} : number m < number n ↔ m < n := by
  rw [number, number, WithBot.coe_lt_coe, WithTop.coe_lt_coe, Nat.cast_lt]

structure Setting where
  autoCycles : Number
  STOP_TIMEOUT_MS : Number
  baseId : String
  peer : PeerManager.Options

/-- An object of `state.log`. -/
structure Record where
  cycle : Nat
  ok : Bool
  readyMs : Nat
  genMs : Nat
  chars : Nat
  stopMs : Nat
  closeWaitMs : Nat
  note : String
  deriving DecidableEq, Repr

/-- What is stored under `SOAK_KEY`. -/
structure SoakLog where
  cycle : Nat
  stopped : Bool
  log : List Record
  deriving DecidableEq, Repr

def SoakLog.empty : SoakLog := ⟨0, false, []⟩

/-- The `runtimeCloses` of a message. The page does not see which of the peer's managers told it. -/
structure Count where
  manager : Nat
  runtimeCloses : Nat
  deriving DecidableEq, Repr

/-- Where `runAutoCycle` is. Behind `askPeerStats` there is the `before` it gave. -/
inductive Phase where
  | returned
  | asking
  | starting (before : Count)
  | generating (before : Count)
  | stopping (before : Count)
  | closing (before : Count)
  /-- `await stopRuntime()` of the `catch`. -/
  | cleaning
  deriving DecidableEq, Repr

/-- The requester's page. `started` is `runtime !== null`. -/
structure Page where
  state : SoakLog
  record : Record
  phase : Phase
  latestPeerStats : Option Count
  outputBuffer : Text
  errors : List String
  sawUnreachable : Bool
  started : Bool
  deriving DecidableEq, Repr

structure World where
  /-- What `startRuntime` of the peer has made, and how many of them went with a page that was left. -/
  managers : List Manager
  gone : Nat
  control : List Count
  storage : Option SoakLog
  /-- `localStorage.setItem` does not throw. -/
  writable : Bool
  page : Page
  /-- The ids given to `startRuntime` of the requester. -/
  nodeIds : List String

inductive Event where
  | peerLoad
  | peerStart
  /-- A manager of the peer handles an event; each notice is published at once. -/
  | peer (manager : Nat) (event : PeerManager.Event)
  /-- The peer gets a query. -/
  | query
  /-- The requester gets a message. -/
  | fdstats
  | load
  | resetSoak
  | storage (writable : Bool)
  /-- A `poll()`. `late` is `Date.now() > deadline`, `startError` what `startRuntime` throws. -/
  | poll (late : Bool) (startError : Option String) (ms : Nat)
  | ready (outcome : Except String Nat)
  | generated (outcome : Except String Nat)
  | stopped (outcome : Except String Nat)
  | onText (delta : Text)
  | onError (message : String)
  | unreachable

/-! ### The peer's page -/

/-- `totalsOf(peerManager.fdStats()).runtimeCloses` -/
def runtimeCloses (m : Manager) : Nat := (m.fdStats.map PeerManager.FdStat.runtimeCloses).sum

/-- What `publishStats` tells at each notice; those of the manager it tells about count on. -/
def announce (counted : Bool) : Nat → List PeerManager.Effect → List Nat
  | _, [] => []
  | n, effect :: rest =>
      match effect with
      | .event _ =>
          let n := if counted && effect.isRuntimeClose then n + 1 else n
          n :: announce counted n rest
      | _ => announce counted n rest

namespace World

/-- `peerManager`, by its place. -/
def current (w : World) : Option Nat :=
  if w.gone < w.managers.length then some (w.managers.length - 1) else none

def publish (w : World) (counts : List Nat) : World :=
  match w.current with
  | none => w
  | some i => { w with control := w.control ++ counts.map (Count.mk i) }

/-- The sum that the rows of `peerManager` have now. -/
def told (w : World) : Nat :=
  match w.managers.getLast? with
  | none => 0
  | some m => runtimeCloses m

/-- What a manager's handling of an event makes `publishStats` tell. -/
def announcements (o : Setting) (w : World) (i : Nat) (m : Manager) (e : PeerManager.Event) : List Nat :=
  announce (i + 1 = w.managers.length) w.told ((m.step o.peer e).log.drop m.log.length)

def peer (o : Setting) (w : World) (i : Nat) (m : Manager) (e : PeerManager.Event) : World :=
  { w with managers := w.managers.set i (m.step o.peer e) }.publish (w.announcements o i m e)

def peerStart (w : World) : World :=
  { w with managers := w.managers ++ [Manager.initial] }.publish [0]

/-! ### The requester's page -/

@[simps] def setPage (w : World) (page : Page) : World := { w with page }

/-- `loadSoak` -/
def loadSoak (w : World) : SoakLog := w.storage.getD .empty

def newRecord (cycle : Nat) : Record := ⟨cycle, false, 0, 0, 0, 0, 0, ""⟩

/-- A new page, up to the first poll of `runAutoCycle`. -/
def newPage (o : Setting) (state : SoakLog) : Page where
  state := state
  record := newRecord state.cycle
  phase := if state.stopped ∨ o.autoCycles ≤ number state.cycle then .returned else .asking
  latestPeerStats := none
  outputBuffer := []
  errors := []
  sawUnreachable := false
  started := false

def load (o : Setting) (w : World) : World :=
  { w with control := [], page := newPage o w.loadSoak }

/-- What follows the `try` of `runAutoCycle`. -/
def finish (w : World) (record : Record) : World :=
  let state : SoakLog := ⟨w.page.state.cycle + 1, !record.ok, w.page.state.log ++ [record]⟩
  { w with
    storage := if w.writable then some state else w.storage
    page := { w.page with state, record, phase := .returned } }

/-- The `catch` of `runAutoCycle`. -/
def fail (w : World) (message : String) : World :=
  let record := { w.page.record with note := message }
  if w.page.started then w.setPage { w.page with record, phase := .cleaning } else w.finish record

def nodeId (o : Setting) (cycle : Nat) : String := s!"{o.baseId}-c{cycle}"

/-- `startRuntime(nodeId)` and the wait for `ready`. -/
def start (o : Setting) (w : World) (before : Count) (startError : Option String) : World :=
  let w := { w with nodeIds := w.nodeIds ++ [nodeId o w.page.state.cycle] }
  match startError with
  | some message => w.fail message
  | none => w.setPage { w.page with started := true, phase := .starting before }

/-- The last lines of the `try`. -/
def passed (o : Setting) (sawUnreachable : Bool) (record : Record) : Record :=
  let record := if sawUnreachable then { record with note := "RuntimeError: unreachable seen" } else record
  let record :=
    if o.STOP_TIMEOUT_MS ≤ number record.stopMs then
      { record with note := s!"stop used the force-exit fallback ({record.stopMs}ms)" }
    else record
  { record with ok := true }

/-- The wait for the peer's `close_connection()` is over. -/
def conclude (o : Setting) (w : World) (ms : Nat) : World :=
  let w := w.setPage { w.page with record := { w.page.record with closeWaitMs := ms } }
  match w.page.errors with
  | message :: _ => w.fail s!"onError fired: {message}"
  | [] => w.finish (passed o w.page.sawUnreachable w.page.record)

/-- A `poll()` of `askPeerStats`. -/
def pollStats (o : Setting) (w : World) (late : Bool) (startError : Option String) : World :=
  match w.page.latestPeerStats with
  | some before => w.start o before startError
  | none => if late then w.fail "peer did not answer the stats query" else w

def stayed (latest : Option Count) : String :=
  match latest with
  | none => "unknown"
  | some count => toString count.runtimeCloses

/-- A `poll()` of `waitForRuntimeCloses`. -/
def pollCloses (o : Setting) (w : World) (before : Count) (late : Bool) (ms : Nat) : World :=
  if ∃ count ∈ w.page.latestPeerStats, before.runtimeCloses + 1 ≤ count.runtimeCloses then w.conclude o ms
  else if late then
    w.fail s!"peer runtimeCloses stayed at {stayed w.page.latestPeerStats}, wanted {before.runtimeCloses + 1}"
  else w

def ready (w : World) (before : Count) : Except String Nat → World
  | .error message => w.fail message
  | .ok ms =>
      w.setPage { w.page with
        record := { w.page.record with readyMs := ms }, outputBuffer := [], phase := .generating before }

def generated (w : World) (before : Count) : Except String Nat → World
  | .error message => w.fail message
  | .ok ms =>
      let chars := w.page.outputBuffer.length
      let w := w.setPage { w.page with record := { w.page.record with genMs := ms, chars } }
      if chars = 0 then w.fail "generate produced no output after ready"
      else w.setPage { w.page with phase := .stopping before }

/-- `stopRuntime({ propagate: true })` -/
def stopped (w : World) (before : Count) (outcome : Except String Nat) : World :=
  let w := w.setPage { w.page with started := false }
  match outcome with
  | .error message => w.fail message
  | .ok ms => w.setPage { w.page with record := { w.page.record with stopMs := ms }, phase := .closing before }

/-- `stopRuntime()` of the `catch` is over, whatever came of it. -/
def cleaned (w : World) : World := (w.setPage { w.page with started := false }).finish w.page.record

def step (o : Setting) (w : World) : Event → Option World
  | .peerLoad => some { w with gone := w.managers.length }
  | .peerStart => some w.peerStart
  | .peer i e => if w.gone ≤ i then (w.managers[i]?).map fun m => w.peer o i m e else none
  | .query => some (w.publish [w.told])
  | .fdstats =>
      match w.control with
      | [] => none
      | count :: rest => some { w with control := rest, page := { w.page with latestPeerStats := some count } }
  | .load => some (w.load o)
  | .resetSoak => some { w with storage := none }
  | .storage writable => some { w with writable }
  | .poll late startError ms =>
      match w.page.phase with
      | .asking => some (w.pollStats o late startError)
      | .closing before => some (w.pollCloses o before late ms)
      | _ => none
  | .ready outcome =>
      match w.page.phase with
      | .starting before => some (w.ready before outcome)
      | _ => none
  | .generated outcome =>
      match w.page.phase with
      | .generating before => some (w.generated before outcome)
      | _ => none
  | .stopped outcome =>
      match w.page.phase with
      | .stopping before => some (w.stopped before outcome)
      | .cleaning => some w.cleaned
      | _ => none
  | .onText delta => some (w.setPage { w.page with outputBuffer := w.page.outputBuffer ++ delta })
  | .onError message => some (w.setPage { w.page with errors := w.page.errors ++ [message] })
  | .unreachable => some (w.setPage { w.page with sawUnreachable := true })

end World

/-- Nothing is stored and no Runtime has been started yet. -/
def soak (o : Setting) : Transition World Event where
  start :=
    { managers := [], gone := 0, control := [], storage := none, writable := true
      page := World.newPage o .empty, nodeIds := [] }
  step := World.step o

end LlmRuntime.Soak
