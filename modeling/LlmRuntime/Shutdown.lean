import LlmRuntime.Peer.Stopping
import LlmRuntime.Requester.Stopping

/-!
# Stopping either Runtime

What holds of `startRequester` and of `startPeer` alike when they are stopped. Both lose it in the same
two places: a `peerManager.close()` that throws takes `stop()` past its backstops, and an abort settles
`exited` without closing the connection, so that `stop()` takes it for a clean exit.
-/

namespace LlmRuntime.Shutdown

open Transition
open Requester (requester)
open Peer (peer)

/-- The generation outlives the `stop()` call that `peerManager.close()` throws out of. -/
def thrown : List Requester.Event :=
  [.startup (.ok ()), .startup (.ok ()), .startup (.ok ()), .pendingPrompt, .generate (some "a"),
    .resumeGenerate 0, .stop, .stopTimer 0, .resumeStop 0 (.error "transport is gone")]

theorem pending_of_thrown :
    (∃ s, (requester 4096).run Requester.initial thrown = some s ∧ ¬ Requester.Quits 4096 s) ∧
      ∃ s, peer.run Peer.initial [.stop (.error "transport is gone")] = some s ∧ ¬ Peer.Quits s := by
  constructor
  · refine ⟨_, rfl, fun hquits => ?_⟩
    have hrested := hquits ⟨.threw "transport is gone", List.mem_cons_self, trivial⟩
    exact hrested.idle 0 rfl
  · refine ⟨_, rfl, fun hquits => ?_⟩
    exact hquits ⟨.threw "transport is gone", List.mem_cons_self, trivial⟩ rfl

/-- **`stop()` leaves nothing pending** in any state of a run if and only if nothing is pending where
`peerManager.close()` throws. -/
theorem stop_leaves_nothing (contextSize : Nat) :
    (∀ es s, (requester contextSize).run Requester.initial es = some s →
      ((requester contextSize).Along Requester.ThrowsLate Requester.initial es ↔
        (requester contextSize).Throughout (Requester.Quits contextSize) es)) ∧
      ∀ es s, peer.run Peer.initial es = some s →
        (peer.Along Peer.ThrowsLate Peer.initial es ↔ peer.Throughout Peer.Quits es) :=
  ⟨fun _ _ hrun => Requester.quits_throughout hrun, fun _ _ hrun => Peer.quits_throughout hrun⟩

/-- Two `stop()` calls; `peerManager.close()` throws at the second when the first has settled everything. -/
def twice : List Requester.Event :=
  [.startup (.ok ()), .generate (some "a"), .stop, .stop, .stopTimer 0, .stopTimer 1, .resumeStop 0 (.ok ()),
    .stopTimer 0, .resumeStop 0 (.ok ()), .resumeStop 1 (.error "transport is gone"), .resumeGenerate 0]

theorem stop_leaves_nothing_twice :
    (requester 4096).Throughout (Requester.Quits 4096) twice ∧
      peer.Throughout Peer.Quits [.startup (.error "no IndexedDB"), .stop (.error "transport is gone")] :=
  ⟨((stop_leaves_nothing 4096).1 twice _ rfl).mp (by decide), ((stop_leaves_nothing 4096).2 _ _ rfl).mp (by decide)⟩

/-- An abort, and then a `stop()` that takes it for a clean exit. -/
def aborted : List Requester.Event :=
  [.startup (.ok ()), .startup (.ok ()), .startup (.ok ()), .startup (.ok ()), .onAbort "out of memory", .stop,
    .resumeStop 0 (.ok ())]

theorem open_of_aborted :
    (∃ s, (requester 4096).run Requester.initial aborted = some s ∧ s.startup = .ended ∧ .returned ∈ s.stops ∧
      s.chunkCache = .opened) ∧
      ∃ s, peer.run Peer.initial [.startup (.ok ()), .startup (.ok ()), .startup (.ok ()),
        .onAbort "out of memory", .stop (.ok ()), .resumeStop 0] = some s ∧ s.startup = .ended ∧
        .returned ∈ s.stops ∧ s.chunkCache = .opened :=
  ⟨⟨_, rfl, by decide⟩, ⟨_, rfl, by decide⟩⟩

/-- **The connection does not outlive the Runtime.** After a `stop()` the factory is not invoked any more;
and in every run whose aborts find the connection closed, it is closed once the startup task has ended and
a `stop()` call has resolved. -/
theorem connection_released (contextSize : Nat) :
    (∀ es s, (requester contextSize).run Requester.initial es = some s →
      (∀ es₁ es₂ u, es = es₁ ++ es₂ → (requester contextSize).run Requester.initial es₁ = some u →
        .stop ∈ es₁ → .invokeFactory ∉ u.effects → .invokeFactory ∉ s.effects) ∧
      ((requester contextSize).Along Requester.AbortsClosed Requester.initial es → s.startup = .ended →
        .returned ∈ s.stops → s.chunkCache ≠ .opened)) ∧
      ∀ es s, peer.run Peer.initial es = some s →
        (∀ es₁ es₂ u close, es = es₁ ++ es₂ → peer.run Peer.initial es₁ = some u → .stop close ∈ es₁ →
          .invokeFactory ∉ u.effects → .invokeFactory ∉ s.effects) ∧
        (peer.Along Peer.AbortsClosed Peer.initial es → s.startup = .ended → .returned ∈ s.stops →
          s.chunkCache ≠ .opened) := by
  constructor
  · intro es s hrun
    refine ⟨?_, fun halong hended hreturned => Requester.connection_closed halong hrun hended hreturned⟩
    rintro es₁ es₂ u rfl hbefore hstop hu
    exact Requester.no_launch hrun hbefore hstop hu
  · intro es s hrun
    refine ⟨?_, fun halong hended hreturned => Peer.connection_closed halong hrun hended hreturned⟩
    rintro es₁ es₂ u close rfl hbefore hstop hu
    exact Peer.no_launch hrun hbefore hstop hu

/-- `stop()` comes and gives up while the model is being prepared. -/
def early : List Requester.Event :=
  [.startup (.ok ()), .stop, .stopTimer 0, .resumeStop 0 (.ok ()), .stopTimer 0, .resumeStop 0 (.ok ()),
    .startup (.ok ()), .startup (.ok ())]

/-- An exit closes the connection before the abort. -/
def late : List Peer.Event :=
  [.startup (.ok ()), .startup (.ok ()), .startup (.ok ()), .onExit 0, .onAbort "late", .stop (.ok ()), .resumeStop 0]

theorem connection_released_early : ∃ s, (requester 4096).run Requester.initial early = some s ∧
    .invokeFactory ∉ s.effects ∧ s.chunkCache ≠ .opened ∧
      ∃ s, peer.run Peer.initial late = some s ∧ s.chunkCache ≠ .opened := by
  have hrequester := (connection_released 4096).1 early _ rfl
  refine ⟨_, rfl, ?_, ?_, _, rfl, ((connection_released 4096).2 late _ rfl).2 (by decide) rfl (by decide)⟩
  · exact hrequester.1 (early.take 2) (early.drop 2) _ rfl rfl (by simp [early]) (by decide)
  · exact hrequester.2 (by decide) rfl (by decide)

end LlmRuntime.Shutdown
