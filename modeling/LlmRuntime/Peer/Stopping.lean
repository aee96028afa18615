import LlmRuntime.Base.Lease
import LlmRuntime.Peer.Steps
import LlmRuntime.Requester.Fatal

/-!
# What the peer's `stop()` leaves behind

As for the requester. The peer opens the connection and calls the factory in one go, so that such a step
is two moves of the lease.
-/

namespace LlmRuntime.Peer

open Transition Lease Relation
open Requester (Deferred CacheHandle)

def Stop.Settled : Stop → Prop
  | .returned | .threw _ => True
  | _ => False

/-- `stop()` keeps its word. -/
def Quits (s : State) : Prop := (∃ stop ∈ s.stops, stop.Settled) → s.ready ≠ .pending

/-- The condition on a step: where `peerManager.close()` throws, `ready` has settled. -/
def ThrowsLate (s : State) : Event → Prop
  | .stop (.error _) => s.ready ≠ .pending
  | _ => True

instance (s : State) (e : Event) : Decidable (ThrowsLate s e) := by
  unfold ThrowsLate
  split <;> infer_instance

/-- The condition on a step: an abort finds the connection closed. -/
def AbortsClosed (s : State) : Event → Prop
  | .onAbort _ => s.chunkCache ≠ .opened
  | _ => True

instance (s : State) (e : Event) : Decidable (AbortsClosed s e) := by
  unfold AbortsClosed
  split <;> infer_instance

variable {s t : State} {e : Event} {es : List Event}

/-! ### Nothing pending -/

theorem step_ready (h : step s e = some t) (hs : s.ready ≠ .pending) : t.ready ≠ .pending := by
  cases step_moves h with
  | factoryResolved =>
      dsimp only
      split
      · exact hs
      · exact Requester.settleResolve_ne_pending _
  | onExit =>
      dsimp only
      split
      · exact hs
      · exact Requester.settleReject_ne_pending _ _
  | startupFailed | initialized | onAbort | finished => simp
  | _ => exact hs

/-- **A step keeps `stop()` to its word if and only if it meets the condition.** -/
theorem quits_step (hs : Quits s) (h : step s e = some t) : Quits t ↔ ThrowsLate s e := by
  cases step_moves h with
  | stop close =>
      cases close with
      | error error =>
          have hsettled : ∃ stop ∈ s.stops ++ [Stop.threw error], stop.Settled :=
            ⟨.threw error, List.mem_append_right _ List.mem_cons_self, trivial⟩
          exact ⟨fun hquits => hquits hsettled, fun hready _ => hready⟩
      | ok =>
          refine iff_of_true (fun hsettled => ?_) trivial
          obtain ⟨stop, hmem, hstop⟩ := hsettled
          rw [List.mem_append, List.mem_singleton] at hmem
          rcases hmem with hmem | rfl
          · exact hs ⟨stop, hmem, hstop⟩
          · exact hstop.elim
  | finished => exact iff_of_true (fun _ => Requester.settleReject_ne_pending _ _) trivial
  | expired stop _ hstop =>
      refine iff_of_true (fun hsettled => ?_) trivial
      obtain ⟨stop', hmem, hsettled⟩ := hsettled
      rcases List.mem_or_eq_of_mem_set hmem with hmem | rfl
      · exact hs ⟨stop', hmem, hsettled⟩
      · exact hsettled.elim
  | _ => exact iff_of_true (fun hsettled => step_ready h (hs hsettled)) trivial

theorem quits_throughout (hrun : peer.run initial es = some s) :
    peer.Along ThrowsLate initial es ↔ peer.Throughout Quits es := by
  refine along_iff_throughout ?_ (fun _ _ _ _ hs hstep => quits_step hs hstep) hrun
  intro ⟨stop, hmem, _⟩
  cases hmem

/-! ### The connection -/

def stageOf : Startup → Stage
  | .importing | .openingCache => .starting
  | .awaitingFactory => .launched
  | .ended => .ended

def State.lease (s : State) : Lease where
  stage := stageOf s.startup
  isOpen := decide (s.chunkCache = .opened)
  gone := decide (s.exited ≠ .pending)
  stopping := s.stopping
  resolved := decide (.returned ∈ s.stops)

theorem step_launched (h : step s e = some t)
    (hs : s.factoryCalled = true → stageOf s.startup ≠ .starting) :
    t.factoryCalled = true → stageOf t.startup ≠ .starting := by
  cases step_moves h <;> simp_all [stageOf]

theorem step_stops (h : step s e = some t) (hs : s.stops ≠ [] → s.stopping = true) :
    t.stops ≠ [] → t.stopping = true := by
  cases step_moves h <;> simp_all

/-- What the moves of the lease rest on. -/
structure Inv (s : State) : Prop where
  launched : s.factoryCalled = true → stageOf s.startup ≠ .starting
  stops : s.stops ≠ [] → s.stopping = true
  lease : s.lease.Inv

theorem Inv.initial : Inv initial where
  launched h := by simp [Peer.initial] at h
  stops h := absurd rfl h
  lease := .initial

/-- Every step that meets the condition is some moves of the lease. -/
theorem step_lease (hinv : Inv s) (haborts : AbortsClosed s e) (h : step s e = some t) :
    ReflTransGen Move s.lease t.lease := by
  have hby {l : Lease} (hmove : Move s.lease l) (heq : t.lease = l) : ReflTransGen Move s.lease t.lease :=
    heq ▸ .single hmove
  have hsame (heq : t.lease = s.lease) : ReflTransGen Move s.lease t.lease := heq ▸ .refl
  cases step_moves h with
  | startupFailed error hstartup =>
      apply hby (.fail ?_)
      · simp [State.lease, stageOf]
      · cases hs : s.startup <;> simp_all [State.lease, stageOf]
  | imported hstartup =>
      apply hsame
      simp [State.lease, stageOf, hstartup]
  | startRefused hstartup hstop =>
      apply hby (.refuse ?_ hstop)
      · simp [State.lease, stageOf]
      · simp [State.lease, stageOf, hstartup]
  | started hstartup hstop =>
      have hacquire : Move s.lease { s.lease with isOpen := true } :=
        .acquire (by simp [State.lease, stageOf, hstartup])
      have hlaunch := Move.launch (l := { s.lease with isOpen := true })
        (by simp [State.lease, stageOf, hstartup]) hstop
      exact .tail (.single hacquire) hlaunch
  | factoryResolved hstartup =>
      apply hby (.finish ?_)
      · simp [State.lease, stageOf]
      · simp [State.lease, stageOf, hstartup]
  | onExit code hfactory =>
      apply hby (.exit (hinv.launched hfactory))
      cases hstop : s.stopping <;> simp [State.lease, hstop]
  | onAbort reason hfactory =>
      have hclosed : s.chunkCache ≠ .opened := haborts
      apply hby (.die (hinv.launched hfactory) (by simp [State.lease, hclosed]))
      simp [State.lease]
  | stop close =>
      apply hby .stop
      cases close <;> simp [State.lease, Stop.first]
  | expired stop hexited hstop =>
      apply hsame
      simp [State.lease, mem_set_iff hstop]
  | finished stop clean hstop hexited =>
      have hstopping := hinv.stops (List.ne_nil_of_mem (List.mem_of_getElem? hstop))
      have hreturned : .returned ∈ s.stops.set stop .returned :=
        List.mem_set (List.getElem?_eq_some_iff.mp hstop).1 _
      cases clean with
      | true =>
          apply hby (.resolve hstopping (by simp [State.lease, hexited]))
          simp [State.lease, hreturned]
      | false =>
          apply hby (.giveUp hstopping)
          simp [State.lease, hreturned]
  | _ => exact hsame rfl

theorem Inv.step (hinv : Inv s) (haborts : AbortsClosed s e) (h : step s e = some t) : Inv t where
  launched := step_launched h hinv.launched
  stops := step_stops h hinv.stops
  lease := hinv.lease.moves (step_lease hinv haborts h)

/-- **The connection is closed** where the startup task has ended and a `stop()` call has resolved, in
every run that meets the condition. -/
theorem connection_closed (halong : peer.Along AbortsClosed initial es) (hrun : peer.run initial es = some s)
    (hended : s.startup = .ended) (hreturned : .returned ∈ s.stops) : s.chunkCache ≠ .opened := by
  have hinv : Inv s := run_keeps_along (fun _ _ _ hinv haborts hstep => hinv.step haborts hstep) .initial halong hrun
  have hshut := hinv.lease.shut (by simp [State.lease, stageOf, hended]) (by simp [State.lease, hreturned])
  simpa [State.lease] using hshut

theorem step_stopping (h : step s e = some t) :
    t.stopping = true ↔ s.stopping = true ∨ ∃ close, e = .stop close := by
  cases step_moves h <;> simp

/-- After `stop()` the factory is not invoked any more. -/
theorem step_no_launch (h : step s e = some t) (hstop : s.stopping = true) (hs : .invokeFactory ∉ s.effects) :
    t.stopping = true ∧ .invokeFactory ∉ t.effects := by
  refine ⟨(step_stopping h).mpr (.inl hstop), ?_⟩
  cases step_moves h with
  | started _ hrunning =>
      rw [hstop] at hrunning
      cases hrunning
  | factoryResolved | stop =>
      dsimp only
      split <;> simp [hs]
  | _ => simp_all

theorem run_stopping (hrun : peer.run s es = some t) {close : Except String Unit} (hmem : .stop close ∈ es) :
    t.stopping = true := by
  induction es generalizing s with
  | nil => cases hmem
  | cons e es ih =>
      obtain ⟨u, hstep, hrest⟩ := run_cons.mp hrun
      rcases List.mem_cons.mp hmem with rfl | hmem
      · have hstep : step s (.stop close) = some u := hstep
        have hu : u.stopping = true := (step_stopping hstep).mpr (.inr ⟨close, rfl⟩)
        exact run_keeps (P := fun s => s.stopping = true) (fun _ _ _ hs h => (step_stopping h).mpr (.inl hs)) hu hrest
      · exact ih hrest hmem

theorem no_launch {es₁ es₂ : List Event} {u : State} (hrun : peer.run initial (es₁ ++ es₂) = some s)
    (hbefore : peer.run initial es₁ = some u) {close : Except String Unit} (hstop : .stop close ∈ es₁)
    (hu : .invokeFactory ∉ u.effects) : .invokeFactory ∉ s.effects := by
  obtain ⟨u', hu', hrest⟩ := run_append.mp hrun
  cases hbefore.symm.trans hu'
  exact (run_keeps (P := fun s => s.stopping = true ∧ .invokeFactory ∉ s.effects)
    (fun _ _ _ hs hstep => step_no_launch hstep hs.1 hs.2) ⟨run_stopping hbefore hstop, hu⟩ hrest).2

end LlmRuntime.Peer
