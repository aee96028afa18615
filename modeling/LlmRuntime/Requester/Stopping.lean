import LlmRuntime.Base.Lease
import LlmRuntime.Requester.Fatal

/-!
# What `stop()` leaves behind

A `stop()` call that comes to its backstops leaves nothing pending; one that `peerManager.close()` throws
out of its fallback does not reach them. The IndexedDB connection is a lease: `lease` says what stands for
what, and every step but an abort under an open connection is one of its moves.
-/

namespace LlmRuntime.Requester

open Transition Lease Relation

def Stop.Settled : Stop → Prop
  | .returned | .threw _ => True
  | _ => False

/-- Nothing is pending, and a suspended `generate()` call settles as soon as it continues. -/
structure Rested (contextSize : Nat) (s : State) : Prop where
  ready : s.ready ≠ .pending
  idle : ∀ g, s.promise g ≠ some .generating
  settles : ∀ g p, s.promise g = some p → p.Settled ∨
    ∃ t q, step contextSize s (.resumeGenerate g) = some t ∧ t.promise g = some q ∧ q.Settled

/-- `stop()` keeps its word. -/
def Quits (contextSize : Nat) (s : State) : Prop := (∃ stop ∈ s.stops, stop.Settled) → Rested contextSize s

/-- The condition on a step: where `peerManager.close()` throws, nothing is pending. -/
def ThrowsLate (s : State) : Event → Prop
  | .resumeStop stop (.error _) => s.stops[stop]? = some (.waiting true) →
      s.ready ≠ .pending ∧ s.activeGeneration = none
  | _ => True

instance (s : State) (e : Event) : Decidable (ThrowsLate s e) := by
  unfold ThrowsLate
  split <;> infer_instance

/-- The condition on a step: an abort finds the connection closed. -/
def AbortsClosed (s : State) : Event → Prop
  | .onAbort _ => s.chunkCache ≠ .opened
  | _ => True

instance (s : State) : ∀ e, Decidable (AbortsClosed s e)
  | .onAbort _ => inferInstanceAs (Decidable (s.chunkCache ≠ .opened))
  | .startup _ | .pendingPrompt | .onExit _ | .generate _ | .resumeGenerate _ | .cancel | .stop | .stopTimer _
  | .resumeStop _ _ => instDecidableTrue

variable {contextSize : Nat} {s t : State} {e : Event} {es : List Event}

/-! ### Nothing pending -/

theorem step_stops (h : step contextSize s e = some t) (hs : s.stops ≠ [] → s.stopRequested = true) :
    t.stops ≠ [] → t.stopRequested = true := by
  cases step_moves h <;> simp_all

theorem stopRequested_of_mem (hreachable : (requester contextSize).Reachable s) {stop : Stop}
    (hmem : stop ∈ s.stops) : s.stopRequested = true := by
  have hkeeps : s.stops ≠ [] → s.stopRequested = true :=
    hreachable.keeps (P := fun s => s.stops ≠ [] → s.stopRequested = true) (fun h => absurd rfl h)
      fun _ _ _ hs hstep => step_stops hstep hs
  exact hkeeps (List.ne_nil_of_mem hmem)

/-- After `stop()`, a suspended call is rejected when `ready` has settled. -/
theorem resume_settles (hstop : s.stopRequested = true) (hready : s.ready ≠ .pending) {g : Nat}
    (hg : s.promise g = some .awaitingReady) :
    ∃ t q, step contextSize s (.resumeGenerate g) = some t ∧ t.promise g = some q ∧ q.Settled := by
  obtain ⟨call, hcall, hwait⟩ := promise_eq_some_iff.mp hg
  have hset : ∀ error, (s.setPromise g (.rejected error)).promise g = some (.rejected error) :=
    fun error => promise_modify rfl (by simp [hg])
  obtain ⟨prompt, encoded, promise⟩ := call
  obtain rfl : promise = .awaitingReady := hwait
  cases hsettled : s.ready with
  | pending => exact absurd hsettled hready
  | rejected error =>
      refine ⟨_, _, ?_, hset error, trivial⟩
      simp [step, State.resumeGenerate, hcall, hsettled]
  | resolved =>
      refine ⟨_, _, ?_, hset stoppingError, trivial⟩
      simp [step, State.resumeGenerate, State.startGeneration, hcall, hsettled, hstop]

theorem rested_iff (hinv : Inv contextSize s) (hstop : s.stopRequested = true) :
    Rested contextSize s ↔ s.ready ≠ .pending ∧ s.activeGeneration = none := by
  constructor
  · intro hrested
    refine ⟨hrested.ready, ?_⟩
    rw [Option.eq_none_iff_forall_ne_some]
    intro g hactive
    exact hrested.idle g ((hinv.active_iff g).mp hactive)
  · intro ⟨hready, hidle⟩
    have hgenerating : ∀ g, s.promise g ≠ some .generating := by
      intro g
      rw [Ne, ← hinv.active_iff, hidle]
      simp
    refine ⟨hready, hgenerating, fun g p hp => ?_⟩
    cases p with
    | awaitingReady => exact .inr (resume_settles hstop hready hp)
    | generating => exact absurd hp (hgenerating g)
    | resolved | rejected => exact .inl trivial

theorem step_idle (hinv : Inv contextSize s) (hstop : s.stopRequested = true)
    (hidle : s.activeGeneration = none) (h : step contextSize s e = some t) : t.activeGeneration = none := by
  rcases step_active hinv h with ⟨-, hnone⟩ | ⟨-, hsame, -⟩ | ⟨g, cb, call, -, hover⟩
  · exact hnone
  · rw [hsame, hidle]
  · rw [hover.notStopping] at hstop
    cases hstop

theorem settled_of_set {stops : List Stop} {i : Nat} {phase : Stop} (hphase : ¬ phase.Settled)
    (h : ∃ stop ∈ stops.set i phase, stop.Settled) : ∃ stop ∈ stops, stop.Settled := by
  obtain ⟨stop, hmem, hsettled⟩ := h
  rcases List.mem_or_eq_of_mem_set hmem with hmem | rfl
  · exact ⟨stop, hmem, hsettled⟩
  · exact absurd hsettled hphase

/-- What a step that settles a `stop()` call does, unless it is a throw. -/
theorem step_settles_stop (h : step contextSize s e = some t) (hs : ¬ ∃ stop ∈ s.stops, stop.Settled)
    (ht : ∃ stop ∈ t.stops, stop.Settled) (hthrows : ∀ stop error, e = .resumeStop stop (.error error) →
      s.stops[stop]? ≠ some (.waiting true)) : t.ready ≠ .pending ∧ t.activeGeneration = none := by
  cases step_moves h with
  | finished => exact ⟨settleReject_ne_pending _ _, rfl⟩
  | closeThrew stop error hstop => exact absurd hstop (hthrows stop error rfl)
  | stop =>
      obtain ⟨stop, hmem, hsettled⟩ := ht
      rw [List.mem_append, List.mem_singleton] at hmem
      rcases hmem with hmem | rfl
      · exact absurd ⟨stop, hmem, hsettled⟩ hs
      · exact hsettled.elim
  | expired | forcedExpired | forced => exact absurd (settled_of_set id ht) hs
  | _ => exact absurd ht hs

theorem quits_of_throw (hinv : Inv contextSize t) (hstop : t.stopRequested = true) {i : Nat} {error : String}
    (hi : s.stops[i]? = some (.waiting true)) (h : step contextSize s (.resumeStop i (.error error)) = some t) :
    Quits contextSize t ↔ s.ready ≠ .pending ∧ s.activeGeneration = none := by
  cases step_moves h with
  | closeThrew =>
      have hsettled : ∃ stop ∈ s.stops.set i (.threw error), stop.Settled :=
        ⟨.threw error, List.mem_set (List.getElem?_eq_some_iff.mp hi).1 _, trivial⟩
      rw [Quits, rested_iff hinv hstop]
      exact ⟨fun hquits => hquits hsettled, fun hrest _ => hrest⟩
  | finished _ _ clean hclean => cases clean <;> simp [hi] at hclean

/-- **A step keeps `stop()` to its word if and only if it meets the condition.** -/
theorem quits_step (hreachable : (requester contextSize).Reachable s) (hs : Quits contextSize s)
    (h : step contextSize s e = some t) : Quits contextSize t ↔ ThrowsLate s e := by
  have hinv := inv_of_reachable hreachable
  by_cases hthrow : ∃ i error, e = .resumeStop i (.error error) ∧ s.stops[i]? = some (.waiting true)
  · obtain ⟨i, error, rfl, hi⟩ := hthrow
    have hstop := stopRequested_of_mem hreachable (List.mem_of_getElem? hi)
    have hstop' := (step_stopRequested h).mpr (.inl hstop)
    rw [quits_of_throw (hinv.step h) hstop' hi h]
    exact ⟨fun hrest _ => hrest, fun hthrows => hthrows hi⟩
  · have hlate : ThrowsLate s e := by
      unfold ThrowsLate
      split
      · rename_i i error
        exact fun hi => absurd ⟨i, error, rfl, hi⟩ hthrow
      · trivial
    refine iff_of_true (fun hafter => ?_) hlate
    obtain ⟨stop, hmem, -⟩ := id hafter
    have hstop' := stopRequested_of_mem (hreachable.step h) hmem
    rw [rested_iff (hinv.step h) hstop']
    by_cases hbefore : ∃ stop ∈ s.stops, stop.Settled
    · obtain ⟨stop, hmem, -⟩ := id hbefore
      have hstop := stopRequested_of_mem hreachable hmem
      obtain ⟨hready, hidle⟩ := (rested_iff hinv hstop).mp (hs hbefore)
      exact ⟨step_ready h hready, step_idle hinv hstop hidle h⟩
    · exact step_settles_stop h hbefore hafter fun i error he hi => hthrow ⟨i, error, he, hi⟩

theorem quits_throughout {es : List Event} (hrun : (requester contextSize).run initial es = some s) :
    (requester contextSize).Along ThrowsLate initial es ↔
      (requester contextSize).Throughout (Quits contextSize) es := by
  refine along_iff_throughout ?_ (fun _ _ _ hreachable hs hstep => quits_step hreachable hs hstep) hrun
  intro ⟨stop, hmem, _⟩
  cases hmem

/-! ### The connection -/

def stageOf : Startup → Stage
  | .importing | .openingCache | .preparingModel => .starting
  | .awaitingFactory => .launched
  | .ended => .ended

def State.lease (s : State) : Lease where
  stage := stageOf s.startup
  isOpen := decide (s.chunkCache = .opened)
  gone := decide (s.exited ≠ .pending)
  stopping := s.stopRequested
  resolved := decide (.returned ∈ s.stops)

theorem step_launched (h : step contextSize s e = some t)
    (hs : s.factoryCalled = true → stageOf s.startup ≠ .starting) :
    t.factoryCalled = true → stageOf t.startup ≠ .starting := by
  cases step_moves h <;> simp_all [stageOf]

theorem launched_of_reachable (hreachable : (requester contextSize).Reachable s)
    (hfactory : s.factoryCalled = true) : stageOf s.startup ≠ .starting :=
  hreachable.keeps (P := fun s => s.factoryCalled = true → stageOf s.startup ≠ .starting)
    (fun h => absurd h (by simp [requester, initial])) (fun _ _ _ hs hstep => step_launched hstep hs) hfactory

/-- Every step that meets the condition is a move of the lease, or nothing to it. -/
theorem step_lease (hreachable : (requester contextSize).Reachable s) (haborts : AbortsClosed s e)
    (h : step contextSize s e = some t) : t.lease = s.lease ∨ Move s.lease t.lease := by
  have hlaunched := launched_of_reachable hreachable
  have hstopping : ∀ {stop}, stop ∈ s.stops → s.stopRequested = true := stopRequested_of_mem hreachable
  have hby {l : Lease} (hmove : Move s.lease l) (heq : t.lease = l) : t.lease = s.lease ∨ Move s.lease t.lease :=
    .inr (heq ▸ hmove)
  cases step_moves h with
  | startupFailed error hstartup =>
      apply hby (.fail ?_)
      · simp [State.lease, stageOf]
      · cases hs : s.startup <;> simp_all [State.lease, stageOf]
  | cacheOpened hstartup =>
      apply hby (.acquire ?_)
      · simp [State.lease, stageOf, hstartup]
      · simp [State.lease, stageOf, hstartup]
  | startRefused hstartup hstop =>
      apply hby (.refuse ?_ hstop)
      · simp [State.lease, stageOf]
      · simp [State.lease, stageOf, hstartup]
  | started hstartup hstop =>
      apply hby (.launch ?_ hstop)
      · simp [State.lease, stageOf]
      · simp [State.lease, stageOf, hstartup]
  | factoryResolved hstartup =>
      apply hby (.finish ?_)
      · simp [State.lease, stageOf]
      · simp [State.lease, stageOf, hstartup]
  | onExit code hfactory =>
      apply hby (.exit (hlaunched hfactory))
      cases hstop : s.stopRequested <;> simp [State.lease, hstop]
  | onAbort reason hfactory =>
      have hclosed : s.chunkCache ≠ .opened := haborts
      apply hby (.die (hlaunched hfactory) (by simp [State.lease, hclosed]))
      simp [State.lease]
  | stop =>
      apply hby .stop
      simp [State.lease]
  | finished stop close clean hclean =>
      have hreturned : ∀ p, s.stops[stop]? = some p → .returned ∈ s.stops.set stop .returned :=
        fun p hp => List.mem_set (List.getElem?_eq_some_iff.mp hp).1 _
      cases clean with
      | true =>
          simp only [if_true] at hclean ⊢
          obtain ⟨hexited, hwaits⟩ := hclean
          have hmem : ∃ p, s.stops[stop]? = some p := hwaits.elim (fun h => ⟨_, h⟩) (fun h => ⟨_, h⟩)
          obtain ⟨p, hp⟩ := hmem
          apply hby (.resolve (hstopping (List.mem_of_getElem? hp)) (by simp [State.lease, hexited]))
          simp [State.lease, hreturned p hp]
      | false =>
          simp only [Bool.false_eq_true, if_false] at hclean ⊢
          apply hby (.giveUp (hstopping (List.mem_of_getElem? hclean)))
          simp [State.lease, hreturned _ hclean]
  | expired stop _ hstop | forcedExpired stop _ hstop | closeThrew stop _ hstop | forced stop hstop =>
      left
      simp [State.lease, mem_set_iff hstop]
  | imported hstartup =>
      left
      simp [State.lease, stageOf, hstartup]
  | _ => exact .inl rfl

/-- **The connection is closed** where the startup task has ended and a `stop()` call has resolved, in
every run that meets the condition. -/
theorem connection_closed (halong : (requester contextSize).Along AbortsClosed initial es)
    (hrun : (requester contextSize).run initial es = some s) (hended : s.startup = .ended)
    (hreturned : .returned ∈ s.stops) : s.chunkCache ≠ .opened := by
  have hlease : (requester contextSize).Reachable s ∧ s.lease.Inv := by
    refine run_keeps_along (C := AbortsClosed)
      (P := fun s => (requester contextSize).Reachable s ∧ s.lease.Inv) ?_ ⟨.start, .initial⟩ halong hrun
    intro s e t ⟨hreachable, hinv⟩ haborts hstep
    refine ⟨hreachable.step hstep, ?_⟩
    rcases step_lease hreachable haborts hstep with heq | hmove
    · rw [heq]
      exact hinv
    · exact hinv.move hmove
  have hshut := hlease.2.shut (by simp [State.lease, stageOf, hended]) (by simp [State.lease, hreturned])
  simpa [State.lease] using hshut

/-- After `stop()` the factory is not invoked any more. -/
theorem step_no_launch (h : step contextSize s e = some t) (hstop : s.stopRequested = true)
    (hs : .invokeFactory ∉ s.effects) : t.stopRequested = true ∧ .invokeFactory ∉ t.effects := by
  refine ⟨(step_stopRequested h).mpr (.inl hstop), ?_⟩
  cases step_moves h with
  | started _ hrunning =>
      rw [hstop] at hrunning
      cases hrunning
  | factoryResolved | forced =>
      dsimp only
      split <;> simp [hs]
  | _ => simp_all

theorem no_launch {es₁ es₂ : List Event} {u : State} (hrun : (requester contextSize).run initial (es₁ ++ es₂) = some s)
    (hbefore : (requester contextSize).run initial es₁ = some u) (hstop : .stop ∈ es₁)
    (hu : .invokeFactory ∉ u.effects) : .invokeFactory ∉ s.effects := by
  obtain ⟨u', hu', hrest⟩ := run_append.mp hrun
  cases hbefore.symm.trans hu'
  have hrequested : u.stopRequested = true := (run_stopRequested hbefore).mpr (.inr hstop)
  exact (run_keeps (P := fun s => s.stopRequested = true ∧ .invokeFactory ∉ s.effects)
    (fun _ _ _ hs hstep => step_no_launch hstep hs.1 hs.2) ⟨hrequested, hu⟩ hrest).2

end LlmRuntime.Requester
