import LlmRuntime.Base.Journal
import LlmRuntime.Base.Promise
import LlmRuntime.Base.Transition
import LlmRuntime.VirtualFile.Model

/-!
# The chunk cache

`openChunkCache` of `runtime/llmlet-runtime.js`, over the browser's IndexedDB. The pages of an origin have
one database, and each connection has its own calls of `get` and `put`, any number of them at a time. When
a request or a transaction ends, and how, is up to the events; so is the browser's closing a connection.
A run is one life of the database: a browser that deletes it ends all connections.
-/

namespace LlmRuntime.ChunkCache

open VirtualFile (Bytes)

/-! ### The database -/

/-- `puts` is what has been committed, in order. -/
inductive Database where
  | missing
  | withoutStore
  | withStore (puts : List (String × Bytes))

namespace Database

def puts : Database → List (String × Bytes)
  | missing | withoutStore => []
  | withStore puts => puts

/-- `onupgradeneeded` comes for a database that has not been there. -/
def upgrade : Database → Database
  | missing => .withStore []
  | database => database

def commit (put : String × Bytes) : Database → Database
  | withStore puts => .withStore (puts ++ [put])
  | database => database

end Database

/-! ### A call -/

inductive Call where
  | get (key : String)
  | put (key : String) (chunk : Bytes)
  deriving DecidableEq, Repr

inductive Request where
  /-- `store.get` or `store.put` has thrown, or has not been reached. -/
  | unplaced
  | pending
  | done (result : Option Bytes)
  | failed
  deriving DecidableEq, Repr

inductive Tx where
  /-- `db.transaction` has thrown. -/
  | refused (error : String)
  | active
  /-- Committed, and `oncomplete` is still to come. -/
  | committed
  | complete
  | aborted
  deriving DecidableEq, Repr

inductive OpEvent where
  /-- `req.onsuccess` -/
  | succeeded
  /-- `req.onerror`, which `tx.onerror` follows. -/
  | failed (error : Option String)
  | committed
  /-- `tx.oncomplete` -/
  | completed
  /-- `tx.onabort` -/
  | aborted (error : Option String)

def Call.failure : Call → String
  | .get _ => "ChunkCache get failed"
  | .put _ _ => "ChunkCache put failed"

/-- What the request of a call gives. -/
def Call.result (puts : List (String × Bytes)) : Call → Option Bytes
  | .get key => Journal.value key puts
  | .put _ _ => none

/-- A call, from `db.transaction` on. `promises` are `reqDone` and `txDone`. -/
structure Op where
  call : Call
  request : Request
  tx : Tx
  promises : Promise.All (Option Bytes) Unit

namespace Op

/-- `db.transaction` throws. -/
def refuse (call : Call) (error : String) : Op := ⟨call, .unplaced, .refused error, .start⟩

/-- `get` and `put` up to their `await`; `refusal` is what the request throws. -/
def place (call : Call) : Option String → Op
  | none => ⟨call, .pending, .active, .start⟩
  | some error => ⟨call, .unplaced, .active, Promise.All.start.settleFirst (.rejected error)⟩

def succeed (op : Op) (result : Option Bytes) : Op :=
  { op with request := .done result, promises := op.promises.settleFirst (.fulfilled result) }

def fail (op : Op) (error : Option String) : Op :=
  { op with
    request := .failed
    promises :=
      (op.promises.settleFirst (.rejected (error.getD op.call.failure))).settleSecond
        (.rejected "IndexedDB transaction failed") }

def commit (op : Op) : Op := { op with tx := .committed }

def complete (op : Op) : Op := { op with tx := .complete, promises := op.promises.settleSecond (.fulfilled ()) }

def abort (op : Op) (error : Option String) : Op :=
  { op with
    tx := .aborted
    promises := op.promises.settleSecond (.rejected (error.getD "IndexedDB transaction aborted")) }

/-- What the call puts into the store, once its transaction is committed. -/
def stored (op : Op) : Option (String × Bytes) :=
  match op.call, op.request, op.tx with
  | .put key chunk, .done _, .committed => some (key, chunk)
  | .put key chunk, .done _, .complete => some (key, chunk)
  | _, _, _ => none

/-- A transaction whose connection is lost can only be aborted, and it is not before its request has failed. -/
def step (database : Database) (lost : Bool) (op : Op) : OpEvent → Option (Database × Op)
  | .succeeded =>
      match lost, op.tx, op.request with
      | false, .active, .pending => some (database, op.succeed (op.call.result database.puts))
      | _, _, _ => none
  | .failed error =>
      match op.tx, op.request with
      | .active, .pending => some (database, op.fail error)
      | _, _ => none
  | .committed =>
      match lost, op.tx, op.request with
      | false, .active, .unplaced => some (database, op.commit)
      | false, .active, .done _ => some (op.commit.stored.elim database database.commit, op.commit)
      | _, _, _ => none
  | .completed =>
      match op.tx with
      | .committed => some (database, op.complete)
      | _ => none
  | .aborted error =>
      match op.tx, op.request with
      | .active, .unplaced => some (database, op.abort error)
      | .active, .done _ => some (database, op.abort error)
      | .active, .failed => some (database, op.abort error)
      | _, _ => none

/-- `await Promise.all([reqDone, txDone])`, or the throw before it. -/
def outcome (op : Op) : Promise (Option Bytes) :=
  match op.tx with
  | .refused error => .rejected error
  | _ => op.promises.result.map Prod.fst

/-- The promise that the caller has. -/
def answer (op : Op) : Promise (Option Bytes) :=
  match op.call with
  | .get _ => op.outcome.recover none
  | .put _ _ => op.outcome.map fun _ => none

end Op

/-! ### A connection -/

inductive Phase where
  | opening
  | opened
  /-- `db.close()` -/
  | closed
  /-- Closed by the browser. -/
  | lost
  | failed (error : String)
  deriving DecidableEq, Repr

/-- With the errors that `console.warn` has been given. -/
structure Connection where
  phase : Phase
  getFailureLogged : Bool
  warnings : List String
  ops : List Op

inductive ConnectionEvent where
  | opened
  | openFailed (error : Option String)
  /-- `thrown` is what `db.transaction` throws, if it does, and `refusal` what the request does. -/
  | called (call : Call) (thrown : String) (refusal : Option String)
  | op (i : Nat) (e : OpEvent)
  | close
  | lose

namespace Connection

def opening : Connection := ⟨.opening, false, [], []⟩

/-- The `catch` of `get`. -/
def caught (conn : Connection) (error : String) : Connection :=
  if conn.getFailureLogged then conn
  else { conn with getFailureLogged := true, warnings := conn.warnings ++ [error] }

/-- `get` comes to its `catch` when its outcome turns out to be a rejection. -/
def follow (conn : Connection) (call : Call) (before after : Promise (Option Bytes)) : Connection :=
  match call, before, after with
  | .get _, .pending, .rejected error => conn.caught error
  | _, _, _ => conn

def call (conn : Connection) (op : Op) : Connection :=
  { conn with ops := conn.ops ++ [op] }.follow op.call .pending op.outcome

def settle (conn : Connection) (i : Nat) (op op' : Op) : Connection :=
  { conn with ops := conn.ops.set i op' }.follow op.call op.outcome op'.outcome

/-- `db.transaction(storeName)` throws unless the connection is open and has the store. -/
def transacts (conn : Connection) : Database → Bool
  | .withStore _ => conn.phase = .opened
  | _ => false

def step (database : Database) (conn : Connection) : ConnectionEvent → Option (Database × Connection)
  | .opened =>
      match conn.phase with
      | .opening => some (database.upgrade, { conn with phase := .opened })
      | _ => none
  | .openFailed error =>
      match conn.phase with
      | .opening => some (database, { conn with phase := .failed (error.getD "failed to open ChunkCache") })
      | _ => none
  | .called call thrown refusal =>
      match conn.phase with
      | .opening => none
      | .failed _ => none
      | _ =>
          if conn.transacts database then some (database, conn.call (.place call refusal))
          else some (database, conn.call (.refuse call thrown))
  | .op i e =>
      match conn.ops[i]? with
      | none => none
      | some op =>
          (op.step database (conn.phase = .lost) e).map fun (database, op') =>
            (database, conn.settle i op op')
  | .close =>
      match conn.phase with
      | .opened => some (database, { conn with phase := .closed })
      | .closed => some (database, conn)
      | .lost => some (database, conn)
      | _ => none
  | .lose =>
      match conn.phase with
      | .opened => some (database, { conn with phase := .lost })
      | .closed => some (database, { conn with phase := .lost })
      | _ => none

end Connection

/-! ### All connections -/

structure State where
  database : Database
  connections : List Connection

inductive Event where
  | openChunkCache
  | connection (c : Nat) (e : ConnectionEvent)

namespace State

def step (s : State) : Event → Option State
  | .openChunkCache => some { s with connections := s.connections ++ [.opening] }
  | .connection c e =>
      match s.connections[c]? with
      | none => none
      | some conn =>
          (conn.step s.database e).map fun (database, conn') => ⟨database, s.connections.set c conn'⟩

/-- Every call of every connection. -/
def ops (s : State) : List Op := s.connections.flatMap Connection.ops

/-- What the calls have put into the store. -/
def stored (s : State) : List (String × Bytes) := s.ops.filterMap Op.stored

end State

/-- The connections to a database. -/
def chunkCache (database : Database) : Transition State Event where
  start := ⟨database, []⟩
  step := State.step

end LlmRuntime.ChunkCache
