import LlmRuntime.Base.JsMap
import LlmRuntime.Base.Transition
import Mathlib.Logic.Function.Basic
import Mathlib.Tactic.Simps.Basic

/-!
# The harness peer manager

`createHarnessPeerManager` of `harness/runtime-only/harness-peer-manager.js`. Its closure variables are
the fields of `Manager`. A connection object is named by its `ConnId`, its place in the order in which
`createConn` made the objects, so that two connections that use one fd number stay apart.

What the manager gives to the transport is in `posts`, each message with the connection it was posted
for; the callbacks it calls and what it tells `onEvent` are in `log`. A callback records what it is given
and does not call the manager back.
-/

namespace LlmRuntime.PeerManager

abbrev Bytes := List UInt8

abbrev ConnId := Nat

/-- A `done`, `writeCB` and `doneCB` closure of the caller, by a number of the caller's choice. -/
abbrev Callback := Nat

inductive Kind where
  | connect
  | accepted
  | data (bytes : Bytes)
  | close
  | other (kind : String)
  deriving DecidableEq, Repr

/-- `sender` and `receiver` are the source's `from` and `to`. -/
structure Message where
  sender : String
  receiver : String
  kind : Kind
  deriving DecidableEq, Repr

structure Post where
  conn : ConnId
  message : Message
  deriving DecidableEq, Repr

/-- The arguments of a `recv()` call, as its `wake` closure keeps them. -/
structure Recv where
  fd : Nat
  len : Nat
  callback : Callback
  deriving DecidableEq, Repr

structure Conn where
  fd : Nat
  remoteId : String
  closed : Bool
  queue : List Bytes
  queuedBytes : Int
  wake : Option Recv
  /-- The `done` of the `connect()` call, until it is called. -/
  accepted : Option Callback
  deriving DecidableEq, Repr

/-- What `onEvent` is told. The types `open` and `closed` are `opened` and `shutdown` here. -/
inductive Notice where
  | error (message : String)
  | opened (fd : Nat) (remoteId : String) (connection : Nat)
  | close (fd : Nat) (remoteId : String)
  | accept (fd : Nat) (remoteId : String) (accepted : Nat)
  | runtimeClose (fd : Nat) (remoteId : String) (runtimeCloses : Nat)
  | registerBuf (fd ptr epoch : Nat) (remoteId : Option String)
  | shutdown (pendingAccepts : Nat)
  deriving DecidableEq, Repr

/-- A call of one of the caller's closures. `conn` is the connection it is about. -/
inductive Effect where
  | connectDone (conn : Option ConnId) (done : Callback) (fd : Int)
  | acceptDone (conn : ConnId) (done : Callback) (fd : Nat)
  | write (conn : ConnId) (recv : Callback) (bytes : Bytes)
  | recvDone (recv : Callback) (ok : Bool)
  | event (notice : Notice)
  deriving DecidableEq, Repr

/-- The options that the manager reads more than once. -/
structure Options where
  nodeId : String
  fdMax : Nat

structure Manager where
  /-- How many connection objects there are; the next one's `ConnId`. -/
  created : Nat
  conn : ConnId → Conn
  conns : JsMap Nat ConnId
  byRemote : JsMap String ConnId
  readyFds : List Nat
  acceptWaiters : List Callback
  connectionCounts : JsMap Nat Nat
  registrationCounts : JsMap Nat Nat
  acceptedCounts : JsMap Nat Nat
  runtimeCloseCounts : JsMap Nat Nat
  nextFd : Nat
  posts : List Post
  log : List Effect

inductive Event where
  | connect (remoteId : String) (done : Callback)
  | accept (done : Callback)
  /-- `postError` is what `transport.post` throws, if it does. -/
  | send (fd : Nat) (data : Bytes) (postError : Option String)
  | recv (fd len : Nat) (callback : Callback)
  | closeConnection (fd : Nat)
  | registerBuf (fd ptr : Nat)
  | close
  | message (message : Message)

def SEND_CHUNK_BYTES : Nat := 256 * 1024

def count (counter : JsMap Nat Nat) (fd : Nat) : Nat := (counter.get fd).getD 0

def bump (counter : JsMap Nat Nat) (fd : Nat) : JsMap Nat Nat := counter.set fd (count counter fd + 1)

/-- The loop of `newFd`, with as many rounds left as the first argument says, and `nextFd` after it. -/
def scanFd (fdMax : Nat) (conns : JsMap Nat ConnId) : Nat → Nat → Option Nat × Nat
  | 0, nextFd => (none, nextFd)
  | rounds + 1, nextFd =>
      let fd := if nextFd ≥ fdMax then 0 else nextFd
      if conns.has fd then scanFd fdMax conns rounds (fd + 1) else (some fd, fd + 1)

/-- The loop of `drain`: what `writeCB` is given, the queue that is left, and `written`. -/
def drainQueue : List Bytes → Nat → List Bytes × List Bytes × Nat
  | [], _ => ([], [], 0)
  | head :: rest, remaining =>
      if remaining = 0 then ([], head :: rest, 0)
      else if remaining < head.length then
        ([head.take remaining], head.drop remaining :: rest, remaining)
      else
        let (writes, queue, written) := drainQueue rest (remaining - head.length)
        (head :: writes, queue, head.length + written)

namespace Manager

def initial : Manager where
  created := 0
  conn := fun _ => ⟨0, "", true, [], 0, none, none⟩
  conns := .empty
  byRemote := .empty
  readyFds := []
  acceptWaiters := []
  connectionCounts := .empty
  registrationCounts := .empty
  acceptedCounts := .empty
  runtimeCloseCounts := .empty
  nextFd := 0
  posts := []
  log := []

@[simps] def push (s : Manager) (effect : Effect) : Manager := { s with log := s.log ++ [effect] }

def emit (s : Manager) (notice : Notice) : Manager := s.push (.event notice)

@[simps] def post (o : Options) (s : Manager) (c : ConnId) (kind : Kind) : Manager :=
  { s with posts := s.posts ++ [⟨c, ⟨o.nodeId, (s.conn c).remoteId, kind⟩⟩] }

@[simps] def setConn (s : Manager) (c : ConnId) (conn : Conn) : Manager :=
  { s with conn := Function.update s.conn c conn }

@[simps] def setNextFd (s : Manager) (nextFd : Nat) : Manager := { s with nextFd }

@[simps] def setWaiters (s : Manager) (acceptWaiters : List Callback) : Manager :=
  { s with acceptWaiters }

@[simps] def setReady (s : Manager) (readyFds : List Nat) : Manager := { s with readyFds }

@[simps] def setByRemote (s : Manager) (byRemote : JsMap String ConnId) : Manager :=
  { s with byRemote }

@[simps] def countAccepted (s : Manager) (fd : Nat) : Manager :=
  { s with acceptedCounts := bump s.acceptedCounts fd }

def newFd (o : Options) (s : Manager) : Option Nat × Manager :=
  match scanFd o.fdMax s.conns o.fdMax s.nextFd with
  | (none, nextFd) => (none, (s.setNextFd nextFd).emit (.error s!"no free fd below {o.fdMax}"))
  | (some fd, nextFd) => (some fd, s.setNextFd nextFd)

/-- `drain()` of a `recv()` call on connection `c`. -/
def drain (s : Manager) (c : ConnId) (r : Recv) : Nat × Manager :=
  let (writes, queue, written) := drainQueue (s.conn c).queue r.len
  (written, { s with
    conn := Function.update s.conn c
      { s.conn c with queue, queuedBytes := (s.conn c).queuedBytes - written }
    log := s.log ++ writes.map (.write c r.callback) })

/-- The closure that `recv()` parks in `wake`. -/
def runWake (s : Manager) (c : ConnId) (r : Recv) : Manager :=
  if s.conns.get r.fd ≠ some c ∨ (s.conn c).closed then s.push (.recvDone r.callback false)
  else (s.drain c r).2.push (.recvDone r.callback true)

/-- `conn.wake = null; if (wake) wake();` -/
def wakeUp (s : Manager) (c : ConnId) : Manager :=
  match (s.conn c).wake with
  | none => s
  | some r => (s.setConn c { s.conn c with wake := none }).runWake c r

/-- `conn.accepted = null; if (accepted) accepted(ok);` -/
def settleConnect (s : Manager) (c : ConnId) (ok : Bool) : Manager :=
  match (s.conn c).accepted with
  | none => s
  | some done =>
      (s.setConn c { s.conn c with accepted := none }).push
        (.connectDone (some c) done (if ok then (s.conn c).fd else -1))

/-- `tombstone` up to the first callback. -/
@[simps] def detach (s : Manager) (c : ConnId) : Manager :=
  { s with
    conn := Function.update s.conn c { s.conn c with closed := true, queue := [], queuedBytes := 0 }
    byRemote :=
      if s.byRemote.get (s.conn c).remoteId = some c then s.byRemote.delete (s.conn c).remoteId
      else s.byRemote
    readyFds := s.readyFds.erase (s.conn c).fd }

def tombstone (s : Manager) (c : ConnId) : Manager :=
  if (s.conn c).closed then s
  else
    (((s.detach c).wakeUp c).settleConnect c false).emit (.close (s.conn c).fd (s.conn c).remoteId)

/-- The object that `createConn` makes, in its two maps. -/
@[simps] def addConn (s : Manager) (fd : Nat) (remoteId : String) : Manager :=
  { s with
    created := s.created + 1
    conn := Function.update s.conn s.created ⟨fd, remoteId, false, [], 0, none, none⟩
    conns := s.conns.set fd s.created
    byRemote := s.byRemote.set remoteId s.created
    connectionCounts := bump s.connectionCounts fd }

/-- `if (previous) tombstone(previous);` -/
def supersede (s : Manager) (remoteId : String) : Manager :=
  match s.byRemote.get remoteId with
  | none => s
  | some previous => s.tombstone previous

/-- `createConn`. The new object is the last one created. -/
def createConn (s : Manager) (fd : Nat) (remoteId : String) : Manager :=
  ((s.supersede remoteId).addConn fd remoteId).emit
    (.opened fd remoteId (count (s.supersede remoteId).connectionCounts fd + 1))

def settleAccept (o : Options) (s : Manager) (fd : Nat) (done : Callback) : Bool × Manager :=
  match s.conns.get fd with
  | none => (false, s)
  | some c =>
      if (s.conn c).closed then (false, s)
      else
        (true, (((s.post o c .accepted).push (.acceptDone c done fd)).countAccepted fd).emit
          (.accept fd (s.conn c).remoteId (count s.acceptedCounts fd + 1)))

def handleConnect (o : Options) (s : Manager) (remoteId : String) : Manager :=
  match s.newFd o with
  | (none, s) => s
  | (some fd, s) =>
      let s := s.createConn fd remoteId
      match s.acceptWaiters with
      | [] => s.setReady (s.readyFds ++ [fd])
      | waiter :: rest =>
          match (s.setWaiters rest).settleAccept o fd waiter with
          | (true, s) => s
          | (false, s) => s.setWaiters (waiter :: s.acceptWaiters)

def handleData (s : Manager) (remoteId : String) (bytes : Bytes) : Manager :=
  match s.byRemote.get remoteId with
  | none => s
  | some c =>
      if bytes.length = 0 then s
      else
        (s.setConn c { s.conn c with
          queue := (s.conn c).queue ++ [bytes]
          queuedBytes := (s.conn c).queuedBytes + bytes.length }).wakeUp c

def onMessage (o : Options) (s : Manager) (message : Message) : Manager :=
  if message.receiver ≠ o.nodeId then s
  else
    match message.kind with
    | .connect => s.handleConnect o message.sender
    | .accepted =>
        match s.byRemote.get message.sender with
        | none => s
        | some c => s.settleConnect c true
    | .data bytes => s.handleData message.sender bytes
    | .close =>
        match s.byRemote.get message.sender with
        | none => s
        | some c => s.tombstone c
    | .other kind => s.emit (.error s!"unknown frame: {kind}")

def connect (o : Options) (s : Manager) (remoteId : String) (done : Callback) : Manager :=
  match s.newFd o with
  | (none, s) => s.push (.connectDone none done (-1))
  | (some fd, s) =>
      let c := s.created
      let s := s.createConn fd remoteId
      (s.setConn c { s.conn c with accepted := some done }).post o c .connect

/-- The loop of `accept` over the numbers in `readyFds`. -/
def acceptLoop (o : Options) (done : Callback) : List Nat → Manager → Manager
  | [], s => s.setWaiters (s.acceptWaiters ++ [done])
  | fd :: rest, s =>
      match (s.setReady rest).settleAccept o fd done with
      | (true, s) => s
      | (false, s) => acceptLoop o done rest s

def accept (o : Options) (s : Manager) (done : Callback) : Manager :=
  acceptLoop o done s.readyFds s

def send (o : Options) (s : Manager) (fd : Nat) (data : Bytes) (postError : Option String) :
    Int × Manager :=
  match s.conns.get fd with
  | none => (-1, s)
  | some c =>
      if (s.conn c).closed then (-1, s)
      else if data.length = 0 then (0, s)
      else
        match postError with
        | some error => (-1, s.emit (.error s!"send failed on fd {fd}: {error}"))
        | none =>
            let take := min SEND_CHUNK_BYTES data.length
            (take, s.post o c (.data (data.take take)))

def recv (s : Manager) (fd len : Nat) (callback : Callback) : Manager :=
  match s.conns.get fd with
  | none => s.push (.recvDone callback false)
  | some c =>
      if (s.conn c).closed then s.push (.recvDone callback false)
      else
        match s.drain c ⟨fd, len, callback⟩ with
        | (0, s) => s.setConn c { s.conn c with wake := some ⟨fd, len, callback⟩ }
        | (_ + 1, s) => s.push (.recvDone callback true)

/-- `conns.delete(fd)` and the count of it. -/
@[simps] def release (s : Manager) (fd : Nat) : Manager :=
  { s with
    conns := s.conns.delete fd
    runtimeCloseCounts := bump s.runtimeCloseCounts fd }

def closeConnection (o : Options) (s : Manager) (fd : Nat) : Int × Manager :=
  match s.conns.get fd with
  | none => (-1, s)
  | some c =>
      let s := if (s.conn c).closed then s else (s.post o c .close).tombstone c
      (0, (s.release fd).emit
        (.runtimeClose fd (s.conn c).remoteId (count s.runtimeCloseCounts fd + 1)))

@[simps] def countRegistration (s : Manager) (fd : Nat) : Manager :=
  { s with registrationCounts := bump s.registrationCounts fd }

def registerBuf (s : Manager) (fd ptr : Nat) : Manager :=
  (s.countRegistration fd).emit (.registerBuf fd ptr (count s.registrationCounts fd + 1)
    ((s.conns.get fd).map fun c => (s.conn c).remoteId))

def close (s : Manager) : Manager :=
  let s := ((s.conns.values.foldl tombstone s).setByRemote .empty).setReady []
  s.emit (.shutdown s.acceptWaiters.length)

def openFds (s : Manager) : List Nat :=
  s.conns.keys.filter fun fd => ((s.conns.get fd).map fun c => (s.conn c).closed) = some false

def reservedFds (s : Manager) : List Nat := s.conns.keys

def step (o : Options) (s : Manager) : Event → Manager
  | .connect remoteId done => s.connect o remoteId done
  | .accept done => s.accept o done
  | .send fd data postError => (s.send o fd data postError).2
  | .recv fd len callback => s.recv fd len callback
  | .closeConnection fd => (s.closeConnection o fd).2
  | .registerBuf fd ptr => s.registerBuf fd ptr
  | .close => s.close
  | .message message => s.onMessage o message

end Manager

/-- A manager and everything that is done to it; no event is refused. -/
def manager (o : Options) : Transition Manager Event where
  start := .initial
  step s e := some (s.step o e)

end LlmRuntime.PeerManager
