import LlmRuntime.Base.JsMap
import LlmRuntime.Base.Segment
import LlmRuntime.Base.Transition
import Mathlib.Data.List.Sort

/-!
# The model virtual file

`addRemoteFile` and `fetchWholeModelToCache` of `runtime/llmlet-runtime.js`. `State` is the node of the
virtual file with the loads that its reads have started and everything that has been put into the chunk
cache. What the cache and the network answer, and when, is up to the events; a page that is loaded again
makes the node anew and finds the cache as it was.
-/

namespace LlmRuntime.VirtualFile

abbrev Bytes := List UInt8

def CHUNK_MAX : Nat := 100000000

def maxEntries : Nat := 5

/-- The arguments of `addRemoteFile` that the reads use. -/
structure File where
  fileId : String
  size : Nat

structure Entry where
  res : Option Bytes
  done : Bool
  length : Nat
  lastUsed : Int
  deriving DecidableEq, Repr

inductive Phase where
  /-- `chunkCache.get` is pending. -/
  | getting
  /-- `fetchRange` is pending. -/
  | fetching
  | loaded
  | failed
  deriving DecidableEq, Repr

structure Load where
  idx : Nat
  phase : Phase
  deriving DecidableEq, Repr

structure State where
  waitingTable : JsMap Nat Entry
  remoteError : Option String
  /-- Every load that a read has started, in order. -/
  loads : List Load
  /-- Every `chunkCache.put`, in order. -/
  puts : List (String × Bytes)

inductive Result where
  /-- The number that is returned, and the buffer. -/
  | returned (copySize : Int) (buffer : Bytes)
  | thrown (errno : Nat)
  deriving DecidableEq, Repr

inductive Event where
  /-- `now` is what `Date.now()` says. -/
  | read (buffer : Bytes) (offset length position : Nat) (now : Int)
  | cacheResolved (load : Nat) (data : Option Bytes)
  | cacheRejected (load : Nat) (error : String)
  | fetchResolved (load : Nat) (bytes : Bytes)
  | fetchRejected (load : Nat) (error : String)
  /-- `fetchWholeModelToCache`, with the slices that the stream gave before it ended or failed. -/
  | preload (slices : List Bytes) (ended : Bool)
  /-- The page is loaded again. -/
  | reopen

/-- The key of the bytes from `chunkPosition` up to `chunkEnd`. -/
def chunkKey (fileId : String) (chunkPosition : Nat) (chunkEnd : Int) : String :=
  "chunk:" ++ fileId ++ ":" ++ toString chunkPosition ++ "-" ++ toString chunkEnd

def chunkPosition (idx : Nat) : Nat := idx * CHUNK_MAX

namespace File

/-- Not positive for a chunk that starts behind the end of the file. -/
def chunkSize (f : File) (idx : Nat) : Int := min (CHUNK_MAX : Int) (f.size - chunkPosition idx)

def chunkEnd (f : File) (idx : Nat) : Int := chunkPosition idx + f.chunkSize idx

def key (f : File) (idx : Nat) : String := chunkKey f.fileId (chunkPosition idx) (f.chunkEnd idx)

end File

/-! ### Reading -/

/-- One round of the eviction's `for` loop. -/
def older (table : JsMap Nat Entry) (oldest : Option Nat) (key : Nat) : Option Nat :=
  match table.get key with
  | none => oldest
  | some entry =>
      if entry.done ≠ true then oldest
      else
        match oldest.bind table.get with
        | none => some key
        | some entry' => if entry.lastUsed < entry'.lastUsed then some key else oldest

/-- `for (const key in node.waitingTable)` runs over the numbers in ascending order. -/
def oldest (table : JsMap Nat Entry) : Option Nat :=
  (table.keys.insertionSort (· ≤ ·)).foldl (older table) none

def evict (table : JsMap Nat Entry) : JsMap Nat Entry :=
  if table.keys.length > maxEntries then
    match oldest table with
    | none => table
    | some key => table.delete key
  else table

namespace State

def initial : State := ⟨.empty, none, [], []⟩

/-- The `catch` of `read` for anything but an `ErrnoError`. -/
def fail (s : State) (error : String) : Result × State := (.thrown 28, { s with remoteError := some error })

def setPhase (s : State) (i : Nat) (load : Load) (phase : Phase) : State :=
  { s with loads := s.loads.set i { load with phase } }

/-- `stream_ops.read`. -/
def read (s : State) (buffer : Bytes) (offset length position : Nat) (now : Int) : Result × State :=
  if length = 0 then (.returned 0 buffer, s)
  else if s.remoteError.isSome then (.thrown 28, s)
  else
    let idx := position / CHUNK_MAX
    match s.waitingTable.get idx with
    | some entry =>
        if entry.done ≠ true then (.thrown 6, s)
        else
          let innerOffset := position % CHUNK_MAX
          let copySize : Int := min (length : Int) (entry.length - innerOffset)
          match entry.res with
          | none => s.fail "TypeError"
          | some res =>
              match buffer.overwrite offset (res.segment innerOffset (innerOffset + copySize).toNat) with
              | none => s.fail "RangeError"
              | some buffer =>
                  (.returned copySize buffer,
                    { s with waitingTable := evict (s.waitingTable.set idx { entry with lastUsed := now }) })
    | none =>
        (.thrown 6,
          { s with
            waitingTable := s.waitingTable.set idx ⟨none, false, 0, now⟩
            loads := s.loads ++ [⟨idx, .getting⟩] })

/-! ### Loading -/

/-- The `catch` at the end of the promise chain. -/
def reject (s : State) (i : Nat) (load : Load) (error : String) : State :=
  { s.setPhase i load .failed with remoteError := some error }

/-- The three assignments to `waitingTable[idx]`. -/
def resolve (s : State) (i : Nat) (load : Load) (bytes : Bytes) : State :=
  match s.waitingTable.get load.idx with
  | none => s.reject i load "TypeError"
  | some entry =>
      { s.setPhase i load .loaded with
        waitingTable := s.waitingTable.set load.idx
          { entry with res := some bytes, done := true, length := bytes.length } }

def put (s : State) (key : String) (bytes : Bytes) : State := { s with puts := s.puts ++ [(key, bytes)] }

end State

/-! ### Preloading -/

/-- The variables of `fetchWholeModelToCache` between two slices, and what it has put. -/
structure Preload where
  chunk : Bytes
  chunkLength : Nat
  chunkPosition : Nat
  puts : List (String × Bytes)
  length_chunk : chunk.length = CHUNK_MAX
  chunkLength_lt : chunkLength < CHUNK_MAX

theorem CHUNK_MAX_pos : 0 < CHUNK_MAX := by decide

/-- `new Uint8Array(CHUNK_MAX)` -/
def newChunk : Bytes := List.replicate CHUNK_MAX 0

theorem length_newChunk : newChunk.length = CHUNK_MAX := List.length_replicate

namespace Preload

def start : Preload where
  chunk := newChunk
  chunkLength := 0
  chunkPosition := 0
  puts := []
  length_chunk := length_newChunk
  chunkLength_lt := CHUNK_MAX_pos

/-- How much of the rest of a slice goes into the chunk. -/
def copyLength (p : Preload) (value : Bytes) : Nat := min value.length (CHUNK_MAX - p.chunkLength)

/-- `chunk` after the copy. -/
def filled (p : Preload) (value : Bytes) : Bytes :=
  p.chunk.take p.chunkLength ++ value.take (p.copyLength value) ++
    p.chunk.drop (p.chunkLength + p.copyLength value)

theorem copyLength_le (p : Preload) (value : Bytes) : p.chunkLength + p.copyLength value ≤ CHUNK_MAX := by
  have hlt := p.chunkLength_lt
  rw [copyLength]
  omega

theorem length_filled (p : Preload) (value : Bytes) : (p.filled value).length = CHUNK_MAX := by
  have hle := p.copyLength_le value
  have hcopy : p.copyLength value ≤ value.length := Nat.min_le_left _ _
  simp only [filled, List.length_append, List.length_take, List.length_drop, p.length_chunk]
  omega

/-- One round of the loop over the rest of a slice. -/
def copy (fileId : String) (p : Preload) (value : Bytes) : Preload :=
  if h : p.chunkLength + p.copyLength value = CHUNK_MAX then
    { chunk := newChunk
      chunkLength := 0
      chunkPosition := p.chunkPosition + CHUNK_MAX
      puts := p.puts ++
        [(chunkKey fileId p.chunkPosition (p.chunkPosition + CHUNK_MAX : Nat), p.filled value)]
      length_chunk := length_newChunk
      chunkLength_lt := CHUNK_MAX_pos }
  else
    { p with
      chunk := p.filled value
      chunkLength := p.chunkLength + p.copyLength value
      length_chunk := p.length_filled value
      chunkLength_lt := Nat.lt_of_le_of_ne (p.copyLength_le value) h }

/-- The loop over one slice, of which the bytes from `readOffset` on are left. -/
def slice (fileId : String) (p : Preload) : Bytes → Preload
  | [] => p
  | byte :: rest =>
      slice fileId (p.copy fileId (byte :: rest)) ((byte :: rest).drop (p.copyLength (byte :: rest)))
termination_by value => value.length
decreasing_by
  have hlt := p.chunkLength_lt
  rw [List.length_drop, copyLength, List.length_cons]
  omega

/-- The `put` of what is left when the stream is `done`. -/
def flush (fileId : String) (p : Preload) : List (String × Bytes) :=
  if p.chunkLength > 0 then
    p.puts ++ [(chunkKey fileId p.chunkPosition (p.chunkPosition + p.chunkLength : Nat),
      p.chunk.take p.chunkLength)]
  else p.puts

end Preload

/-- What is put, in order. A stream that fails leaves out what comes when it is `done`. -/
def fetchWholeModelToCache (fileId : String) (slices : List Bytes) (ended : Bool) : List (String × Bytes) :=
  let p := slices.foldl (Preload.slice fileId) .start
  if ended then p.flush fileId else p.puts

/-! ### The system -/

namespace State

def step (f : File) (s : State) : Event → Option State
  | .read buffer offset length position now => some (s.read buffer offset length position now).2
  | .cacheResolved i data =>
      match s.loads[i]? with
      | some ⟨idx, .getting⟩ =>
          match data with
          | some bytes => some (s.resolve i ⟨idx, .getting⟩ bytes)
          | none => some (s.setPhase i ⟨idx, .getting⟩ .fetching)
      | _ => none
  | .cacheRejected i error =>
      match s.loads[i]? with
      | some ⟨idx, .getting⟩ => some (s.reject i ⟨idx, .getting⟩ error)
      | _ => none
  | .fetchResolved i bytes =>
      match s.loads[i]? with
      | some ⟨idx, .fetching⟩ => some ((s.put (f.key idx) bytes).resolve i ⟨idx, .fetching⟩ bytes)
      | _ => none
  | .fetchRejected i error =>
      match s.loads[i]? with
      | some ⟨idx, .fetching⟩ => some (s.reject i ⟨idx, .fetching⟩ error)
      | _ => none
  | .preload slices ended => some { s with puts := s.puts ++ fetchWholeModelToCache f.fileId slices ended }
  | .reopen => some { State.initial with puts := s.puts }

end State

/-- The virtual file under everything that can happen to it; an answer to a load that is not waiting for
it is refused. -/
def virtualFile (f : File) : Transition State Event where
  start := .initial
  step := State.step f

end LlmRuntime.VirtualFile
