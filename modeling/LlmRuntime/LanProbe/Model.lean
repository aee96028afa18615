import LlmRuntime.Base.JsMap
import LlmRuntime.Base.Transition

/-!
# The snapshots of the LAN probe

`snapshot` and `mergeObserved` of `scripts/lan-probe.js`, for one connection. A request for statistics
gets the next number of the page, which the other connections count on too, and settles with a digest or
an error at some later time. What `describeStatCandidate` makes of a candidate is of any type `κ`.
-/

namespace LlmRuntime.LanProbe

/-- `state` is none for `null`. -/
structure Pair (κ : Type) where
  id : String
  state : Option String
  nominated : Bool
  selected : Bool
  localCandidate : Option κ
  remoteCandidate : Option κ
  deriving DecidableEq, Repr

structure Digest (κ : Type) where
  pairs : List (Pair κ)
  selectedPair : Option (Pair κ)
  selectedVia : Option String
  deriving DecidableEq, Repr

/-- An object of `statsSnapshots`. -/
structure Entry (κ : Type) where
  seq : Nat
  trigger : String
  requestedAtMs : Nat
  completedAtMs : Option Nat
  digest : Option (Digest κ)
  error : Option String
  deriving DecidableEq, Repr

/-- An object of `pairsEverObserved`. `lastSeenSeq` is none for `-Infinity`. -/
structure Observed (κ : Type) where
  id : String
  firstSeenSeq : Nat
  lastSeenSeq : Option Nat
  statesSeen : List (Option String)
  lastState : Option String
  everNominated : Bool
  everSelected : Bool
  localCandidate : Option κ
  remoteCandidate : Option κ
  deriving DecidableEq, Repr

/-- `rec`, as far as snapshots go. -/
structure Record (κ : Type) where
  stats : Option (Digest κ)
  statsAtMs : Option Nat
  latestStatsSeq : Nat
  statsSnapshots : List (Entry κ)
  pairsEverObserved : JsMap String (Observed κ)

/-- The names that every object of JavaScript answers to. -/
def INHERITED : List String :=
  ["constructor", "__defineGetter__", "__defineSetter__", "hasOwnProperty", "__lookupGetter__",
    "__lookupSetter__", "isPrototypeOf", "propertyIsEnumerable", "toString", "valueOf", "__proto__",
    "toLocaleString"]

variable {κ : Type}

/-- The object that is made for a pair seen for the first time. -/
def unseen (pair : Pair κ) (seq : Nat) : Observed κ where
  id := pair.id
  firstSeenSeq := seq
  lastSeenSeq := none
  statesSeen := []
  lastState := none
  everNominated := false
  everSelected := false
  localCandidate := none
  remoteCandidate := none

namespace Observed

/-- The order-independent part. -/
def observe (prev : Observed κ) (pair : Pair κ) (seq : Nat) : Observed κ :=
  { prev with
    firstSeenSeq := if seq < prev.firstSeenSeq then seq else prev.firstSeenSeq
    statesSeen := if pair.state ∈ prev.statesSeen then prev.statesSeen else prev.statesSeen ++ [pair.state]
    everNominated := prev.everNominated || pair.nominated
    everSelected := prev.everSelected || pair.selected }

/-- The latest-wins part. -/
def refresh (prev : Observed κ) (pair : Pair κ) (seq : Nat) : Observed κ :=
  if ∀ last ∈ prev.lastSeenSeq, last ≤ seq then
    { prev with
      lastSeenSeq := some seq
      lastState := pair.state
      localCandidate := pair.localCandidate
      remoteCandidate := pair.remoteCandidate }
  else prev

end Observed

/-- One round of the loop of `mergeObserved`. An inherited name is taken for an object that is there, whose
`statesSeen` is undefined. -/
def mergePair (observed : JsMap String (Observed κ)) (seq : Nat) (pair : Pair κ) :
    Option (JsMap String (Observed κ)) :=
  match observed.get pair.id with
  | some prev => some (observed.set pair.id ((prev.observe pair seq).refresh pair seq))
  | none =>
      if pair.id ∈ INHERITED then none
      else some (observed.set pair.id (((unseen pair seq).observe pair seq).refresh pair seq))

/-- The loop, with whether it came to its end. -/
def mergePairs (seq : Nat) : List (Pair κ) → JsMap String (Observed κ) → Bool × JsMap String (Observed κ)
  | [], observed => (true, observed)
  | pair :: rest, observed =>
      match mergePair observed seq pair with
      | none => (false, observed)
      | some observed => mergePairs seq rest observed

def TYPE_ERROR : String := "TypeError: Cannot read properties of undefined (reading 'indexOf')"

namespace Record

def initial : Record κ where
  stats := none
  statsAtMs := none
  latestStatsSeq := 0
  statsSnapshots := []
  pairsEverObserved := .empty

/-- The first three lines of `settle`. -/
def complete (r : Record κ) (seq now : Nat) (digest : Option (Digest κ)) (error : Option String) : Record κ :=
  { r with
    statsSnapshots := r.statsSnapshots.map fun entry =>
      if entry.seq = seq then { entry with completedAtMs := some now, digest, error } else entry }

/-- The write that `latestStatsSeq` guards. -/
def apply (r : Record κ) (seq now : Nat) (digest : Digest κ) : Record κ :=
  if r.latestStatsSeq ≤ seq then { r with latestStatsSeq := seq, stats := some digest, statsAtMs := some now }
  else r

def mergeObserved (r : Record κ) (seq : Nat) (digest : Digest κ) : Bool × Record κ :=
  let (ended, pairsEverObserved) := mergePairs seq digest.pairs r.pairsEverObserved
  (ended, { r with pairsEverObserved })

/-- `settle(digest, null)`, with whether it came to its end. -/
def settleDigest (r : Record κ) (seq now : Nat) (digest : Digest κ) : Bool × Record κ :=
  ((r.complete seq now (some digest) none).apply seq now digest).mergeObserved seq digest

/-- The promise of a request settles. Its `catch` gets also what `settle` throws, at `later`. -/
def settle (r : Record κ) (seq now later : Nat) : Except String (Digest κ) → Record κ
  | .error error => r.complete seq now none (some error)
  | .ok digest =>
      match r.settleDigest seq now digest with
      | (true, r) => r
      | (false, r) => r.complete seq later none (some TYPE_ERROR)

end Record

/-- The page, as far as this connection goes. -/
structure Page (κ : Type) where
  statsSeq : Nat
  record : Record κ

inductive Event (κ : Type) where
  /-- Another connection takes a number. -/
  | elsewhere
  | snapshot (trigger : String) (now : Nat)
  /-- Also where `getStats()` throws: then it comes at once. -/
  | settle (seq : Nat) (outcome : Except String (Digest κ)) (now later : Nat)

namespace Page

/-- `snapshot` up to the call of `getStats()`. -/
def snapshot (s : Page κ) (trigger : String) (now : Nat) : Page κ where
  statsSeq := s.statsSeq + 1
  record := { s.record with
    statsSnapshots := s.record.statsSnapshots ++ [⟨s.statsSeq + 1, trigger, now, none, none, none⟩] }

/-- The numbers of the requests that have not settled. -/
def pending (s : Page κ) : List Nat :=
  (s.record.statsSnapshots.filter fun entry => entry.completedAtMs.isNone).map Entry.seq

/-- A promise settles once. -/
def step (s : Page κ) : Event κ → Option (Page κ)
  | .elsewhere => some { s with statsSeq := s.statsSeq + 1 }
  | .snapshot trigger now => some (s.snapshot trigger now)
  | .settle seq outcome now later =>
      if seq ∈ s.pending then some { s with record := s.record.settle seq now later outcome } else none

end Page

/-- A connection made when the page has taken `statsSeq` numbers already. -/
def page (statsSeq : Nat) : Transition (Page κ) (Event κ) where
  start := ⟨statsSeq, .initial⟩
  step := Page.step

end LlmRuntime.LanProbe
