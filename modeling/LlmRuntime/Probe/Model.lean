import LlmRuntime.Gguf.Model

/-!
# The byte sources of the header probe

`HttpSource` and `FileSource` of `scripts/probe-gguf-header.mjs`: both keep what they have read of the
file, grow it by doubling and never read a byte twice. What the server answers to the `i`-th request and
what the disk has are parameters.
-/

namespace LlmRuntime.Probe

open Gguf

def FIRST_READ : Nat := 1 <<< 20

def MAX_READ : Nat := 512 <<< 20

/-- `new Uint8Array(n)` with `set` calls that fill it, a `RangeError` if `n` is too large. -/
def uint8Array (bytes : List UInt8) : Except Failure Uint8Array :=
  if h : isSafeInteger bytes.length then .ok ⟨bytes, 0, bytes.length, by omega, h⟩ else .error .rangeError

def emptyArray : Uint8Array := ⟨[], 0, 0, by decide, by decide⟩

/-! ### HttpSource -/

/-- A number in a header: not there, a whole number, or something `Number` makes `NaN` of. -/
inductive Field where
  | absent
  | number (value : Int)
  | other
  deriving DecidableEq, Repr

/-- `contentRange` is what stands after the `/` of the header. The body comes in chunks and may break. -/
structure Response where
  status : Nat
  statusText : String
  contentRange : Field
  contentLength : Field
  body : List (List UInt8)
  broken : Option String

/-- The answer to request number `i` for the bytes from `first` to `last`. -/
structure Server where
  fetch : Nat → Nat → Nat → Except String Response

inductive Mode where
  | range
  | stream
  deriving DecidableEq, Repr

/-- `ranges` are the `Range` headers that were sent. -/
structure HttpSource where
  bytes : Uint8Array
  size : Option Int
  requests : Nat
  mode : Mode
  stream : List (List UInt8)
  broken : Option String
  ranges : List (Nat × Nat)

namespace HttpSource

def initial : HttpSource where
  bytes := emptyArray
  size := none
  requests := 0
  mode := .range
  stream := []
  broken := none
  ranges := []

def append (chunk : List UInt8) : EStateM Failure HttpSource Unit := fun s =>
  match uint8Array (s.bytes.toList ++ chunk) with
  | .ok bytes => .ok () { s with bytes }
  | .error e => .error e s

/-- `while (this.bytes.length < target)`, over the chunks that are left. -/
def pumpFrom (target : Nat) : List (List UInt8) → EStateM Failure HttpSource Unit
  | [] => fun s =>
      if target ≤ s.bytes.length then .ok () s
      else
        match s.broken with
        | none => .ok () s
        | some message => .error (.error message) s
  | chunk :: rest => fun s =>
      if target ≤ s.bytes.length then .ok () s
      else (append chunk >>= fun _ => pumpFrom target rest) { s with stream := rest }

def pump (target : Nat) : EStateM Failure HttpSource Unit := fun s => pumpFrom target s.stream s

/-- `Number(response.headers.get("content-length"))`, where `Number(null)` is zero. -/
def contentLength (r : Response) : Option Int :=
  match r.contentLength with
  | .absent => some 0
  | .number value => some value
  | .other => none

/-- `range ? Number(range.split("/")[1]) : undefined`. -/
def contentRange (r : Response) : Option Int :=
  match r.contentRange with
  | .number value => some value
  | .absent | .other => none

/-- `if (Number.isFinite(value)) this.size = value`. -/
def setSize (value : Option Int) : EStateM Failure HttpSource Unit :=
  modify fun s => { s with size := value.or s.size }

variable (url : String) (server : Server)

/-- The part of `fetchRange` after the request, which was for the bytes from `start` on. -/
def receive (start target : Nat) (response : Response) : EStateM Failure HttpSource Unit := do
  modify fun s => { s with requests := s.requests + 1 }
  if response.status = 206 then
    setSize (contentRange response)
    match response.broken with
    | some message => fail message
    | none => append response.body.flatten
  else if response.status = 200 then
    setSize (contentLength response)
    if start ≠ 0 then fail "server ignored Range mid-parse; cannot resume"
    else
      modify fun s => { s with mode := .stream, stream := response.body, broken := response.broken }
      pump target
  else fail s!"HTTP {response.status} {response.statusText} for {url}"

def fetchRange (target : Nat) : EStateM Failure HttpSource Unit := fun s =>
  let start := s.bytes.length
  let asked := { s with ranges := s.ranges ++ [(start, target - 1)] }
  match server.fetch s.requests start (target - 1) with
  | .error message => .error (.error message) asked
  | .ok response => receive url start target response asked

/-- How far `ensure` reads, before the size of the file is known or where it is. -/
def target (s : HttpSource) (stop : Nat) : Int :=
  let grown : Nat := max (max stop FIRST_READ) (s.bytes.length * 2)
  match s.size with
  | none => grown
  | some size => min grown size

/-- `if (this.mode === "range") await this.fetchRange(target); else await this.pump(target)`. -/
def readOn (target : Nat) : EStateM Failure HttpSource Unit := fun s =>
  match s.mode with
  | .range => fetchRange url server target s
  | .stream => pump target s

def showSize (size : Option Int) : String :=
  match size with
  | none => "undefined"
  | some size => toString size

def ensure (stop : Nat) : EStateM Failure HttpSource Uint8Array := do
  let s ← get
  if stop ≤ s.bytes.length then pure s.bytes
  else if stop > MAX_READ then
    fail s!"header parse wanted {stop} bytes; refusing to read past {MAX_READ}"
  else if target s stop < stop then
    fail s!"file ends at {showSize s.size} bytes but the header needs {stop}"
  else
    readOn url server (target s stop).toNat
    let s ← get
    if s.bytes.length < stop then fail s!"could not read {stop} bytes (got {s.bytes.length})"
    else pure s.bytes

def source : Source HttpSource := ⟨ensure url server⟩

end HttpSource

/-! ### FileSource -/

structure FileSource where
  bytes : Uint8Array
  requests : Nat

namespace FileSource

def initial : FileSource where
  bytes := emptyArray
  requests := 0

/-- `disk start last` are the chunks of `createReadStream` for the bytes from `start` to `last`. -/
def ensure (path : String) (size : Nat) (disk : Nat → Nat → List (List UInt8)) (stop : Nat) :
    EStateM Failure FileSource Uint8Array := do
  let s ← get
  if stop ≤ s.bytes.length then pure s.bytes
  else if stop > MAX_READ then
    fail s!"header parse wanted {stop} bytes; refusing to read past {MAX_READ}"
  else
    let target := min (max (max stop FIRST_READ) (s.bytes.length * 2)) size
    if target < stop then fail s!"file ends at {size} bytes but the header needs {stop}"
    else
      let chunks := disk s.bytes.length (target - 1)
      modify fun s => { s with requests := s.requests + 1 }
      match uint8Array (s.bytes.toList ++ chunks.flatten) with
      | .error e => throw e
      | .ok bytes =>
          modify fun s => { s with bytes }
          if bytes.length < stop then fail s!"could not read {stop} bytes from {path}"
          else pure bytes

def source (path : String) (size : Nat) (disk : Nat → Nat → List (List UInt8)) : Source FileSource :=
  ⟨ensure path size disk⟩

end FileSource

end LlmRuntime.Probe
