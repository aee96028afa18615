import LlmRuntime.Base.Binary64
import LlmRuntime.VirtualFile.Model

/-!
# Opening the model

`prepareModel` of `runtime/llmlet-runtime.js`, in any number of tabs. All tabs of an origin have one chunk
cache, which also outlives them; each has a virtual file of its own. A tab opens one model; for the next
it is loaded again.
-/

namespace LlmRuntime.VirtualFile

/-! ### The identity of a model -/

/-- What is read of the answer to a `HEAD` request. A `Content-Length` is digits. -/
structure HeadAnswer where
  status : Nat
  rawLength : Option (List Char)
  etag : Option String
  lastModified : Option String

/-- `response.ok` -/
def isOk (status : Nat) : Bool := 200 ≤ status && status < 300

/-- `Number(rawLength)`, if it is finite. -/
def number (rawLength : List Char) : Option Nat :=
  match Binary64.round false (Nat.ofDigitChars 10 rawLength 0 : Nat) with
  | .finite _ magnitude _ => some ⌊magnitude⌋₊
  | .nan => none
  | .infinite _ => none

def fileIdentity (name : String) (size : Nat) (lastModified : Int) : String :=
  String.intercalate "\x00" [name, toString size, toString lastModified]

def urlIdentity (modelUrl : String) (rawLength : List Char) (head : HeadAnswer) : String :=
  String.intercalate "\x00"
    [modelUrl, String.ofList rawLength, head.etag.getD "", head.lastModified.getD ""]

/-! ### A tab -/

abbrev Cache := List (String × Bytes)

/-- Where `fetchRange` has its bytes from. -/
inductive Origin where
  /-- `file.slice` of a `File`. -/
  | file (content : Bytes)
  /-- Requests with a `Range` header. -/
  | ranges (modelUrl : String)
  /-- Nowhere: the whole model has been put into the cache. -/
  | stored

/-- How far `prepareModel` is; each stage waits for an answer. -/
inductive TabStage where
  | closed
  | heading (modelUrl : String)
  | probing (modelUrl identity : String) (size : Nat)
  | downloading (modelUrl identity : String) (size : Nat)
  /-- With the slices that the stream has given so far. -/
  | preloading (identity : String) (size : Nat) (slices : List Bytes)
  | opened (identity : String) (size : Nat) (origin : Origin) (node : State)
  | failed (error : String)

inductive TabEvent where
  | openFile (name : String) (content : Bytes) (lastModified : Int)
  | openUrl (modelUrl : String)
  | headed (answer : Except String HeadAnswer)
  /-- The status of the answer to `bytes=0-1`. -/
  | probed (answer : Except String Nat)
  /-- The status of the download, and whether it has a body. -/
  | responded (answer : Except String (Nat × Bool))
  /-- A slice of the download, or its end. -/
  | sliced (answer : Except String (Option Bytes))
  | read (buffer : Bytes) (offset length position : Nat) (now : Int)
  | cacheResolved (load : Nat) (data : Option Bytes)
  | cacheRejected (load : Nat) (error : String)
  /-- The status and the body that a `fetchRange` has got, if it has asked anyone. -/
  | fetched (load : Nat) (answer : Except String (Nat × Bytes))
  | reload

/-- `fetchRange(start, stop)`, given the answer. -/
def Origin.fetchRange (start stop : Nat) : Origin → Except String (Nat × Bytes) → Except String Bytes
  | .stored, _ => .error "unexpected cache miss after full model preload"
  | _, .error error => .error error
  | .file content, .ok _ => .ok (content.segment start stop)
  | .ranges _, .ok (status, body) =>
      if status = 206 then .ok body else .error s!"model range request failed: HTTP {status}"

section

variable (digestString : String → String)

def fileOf (identity : String) (size : Nat) : File := ⟨digestString identity, size⟩

/-- What the node does with the answer to the load number `load`. -/
def settle (file : File) (origin : Origin) (node : State) (load : Nat)
    (answer : Except String (Nat × Bytes)) : Event :=
  let stretch := node.loads[load]?.elim (0, 0) fun l => (chunkPosition l.idx, (file.chunkEnd l.idx).toNat)
  match origin.fetchRange stretch.1 stretch.2 answer with
  | .ok bytes => .fetchResolved load bytes
  | .error error => .fetchRejected load error

/-- What `fetchWholeModelToCache` puts between two states of the stream. -/
def newPuts (fileId : String) (before slices : List Bytes) (ended : Bool) : Cache :=
  (fetchWholeModelToCache fileId slices ended).drop (fetchWholeModelToCache fileId before false).length

/-- An event of the virtual file, which has the cache of the origin. -/
def nodeStep (identity : String) (size : Nat) (origin : Origin) (node : State) (cache : Cache) (e : Event) :
    Option (TabStage × Cache) :=
  (State.step (fileOf digestString identity size) { node with puts := cache } e).map fun node =>
    (.opened identity size origin node, node.puts)

def headStage (modelUrl : String) (head : HeadAnswer) : TabStage :=
  if ¬ isOk head.status then .failed s!"failed to access model HEAD: HTTP {head.status}"
  else
    match head.rawLength with
    | none => .failed "model response has no Content-Length"
    | some rawLength =>
        match number rawLength with
        | none => .failed s!"invalid model Content-Length: {String.ofList rawLength}"
        | some size =>
            if size = 0 then .failed s!"invalid model Content-Length: {String.ofList rawLength}"
            else .probing modelUrl (urlIdentity modelUrl rawLength head) size

def TabStage.step (cache : Cache) : TabStage → TabEvent → Option (TabStage × Cache)
  | .closed, .openFile name content lastModified =>
      if content.length = 0 then some (.failed "model file is empty", cache)
      else
        some (.opened (fileIdentity name content.length lastModified) content.length (.file content) .initial,
          cache)
  | .closed, .openUrl modelUrl =>
      if modelUrl = "" then some (.failed "model URL is empty", cache) else some (.heading modelUrl, cache)
  | .heading _, .headed (.error error) => some (.failed error, cache)
  | .heading modelUrl, .headed (.ok head) => some (headStage modelUrl head, cache)
  | .probing _ _ _, .probed (.error error) => some (.failed error, cache)
  | .probing modelUrl identity size, .probed (.ok status) =>
      if status = 206 then some (.opened identity size (.ranges modelUrl) .initial, cache)
      else some (.downloading modelUrl identity size, cache)
  | .downloading _ _ _, .responded (.error error) => some (.failed error, cache)
  | .downloading _ identity size, .responded (.ok (status, hasBody)) =>
      if isOk status ∧ hasBody then some (.preloading identity size [], cache)
      else some (.failed s!"failed to download model: HTTP {status}", cache)
  | .preloading _ _ _, .sliced (.error error) => some (.failed error, cache)
  | .preloading identity size slices, .sliced (.ok (some slice)) =>
      some (.preloading identity size (slices ++ [slice]),
        cache ++ newPuts (digestString identity) slices (slices ++ [slice]) false)
  | .preloading identity size slices, .sliced (.ok none) =>
      some (.opened identity size .stored .initial,
        cache ++ newPuts (digestString identity) slices slices true)
  | .opened identity size origin node, .read buffer offset length position now =>
      nodeStep digestString identity size origin node cache (.read buffer offset length position now)
  | .opened identity size origin node, .cacheResolved load data =>
      nodeStep digestString identity size origin node cache (.cacheResolved load data)
  | .opened identity size origin node, .cacheRejected load error =>
      nodeStep digestString identity size origin node cache (.cacheRejected load error)
  | .opened identity size origin node, .fetched load answer =>
      nodeStep digestString identity size origin node cache
        (settle (fileOf digestString identity size) origin node load answer)
  | _, .reload => some (.closed, cache)
  | _, _ => none

/-! ### All tabs -/

structure Tabs where
  stage : Nat → TabStage
  cache : Cache

def Tabs.step (s : Tabs) (e : Nat × TabEvent) : Option Tabs :=
  ((s.stage e.1).step digestString s.cache e.2).map fun (stage, cache) =>
    ⟨Function.update s.stage e.1 stage, cache⟩

/-- The tabs of an origin whose cache is empty at first. -/
def tabs : Transition Tabs (Nat × TabEvent) where
  start := ⟨fun _ => .closed, []⟩
  step := Tabs.step digestString

end

end LlmRuntime.VirtualFile
