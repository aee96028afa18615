import LlmRuntime.Requester.Generation

/-!
# After a fatal event

`onExit` sets `stopped`; `onAbort` and the `catch` of the startup task do not, and none of the three
clears `promptWaiter`. So a Runtime that aborts while it waits for a prompt is still handed the next
one. `Meets` is what keeps a run away from that, and `AfterFailure` what then holds of it.
-/

namespace LlmRuntime.Requester

open Transition

/-- The events the Runtime has failed with. -/
def Event.Fatal : Event → Prop
  | .onExit _ | .onAbort _ | .startup (.error _) => True
  | _ => False

/-- Suspended in a `waitOrTimeout`. -/
def Stop.Waits : Stop → Prop
  | .waiting _ | .forced _ => True
  | _ => False

def Deferred.IsRejected : Deferred → Prop
  | .rejected _ => True
  | _ => False

instance : DecidablePred Stop.Waits := fun s => by cases s <;> unfold Stop.Waits <;> infer_instance

instance : DecidablePred Deferred.IsRejected := fun d => by
  cases d <;> unfold Deferred.IsRejected <;> infer_instance

/-- A `generate()` call hangs at `await ready.promise`. -/
def State.AwaitsReady (s : State) : Prop :=
  s.ready = .pending ∧ ∃ call ∈ s.calls, call.promise = .awaitingReady

instance (s : State) : Decidable s.AwaitsReady := inferInstanceAs (Decidable (_ ∧ _))

/-- The condition on a step. An abort or a startup failure finds no callback parked that a later prompt
could be delivered to; C++ does not ask for a prompt after it failed; and an exit during `stop()`
leaves a `stop()` call that will reject `ready` if a `generate()` call awaits it. -/
def Meets (s : State) : Event → Prop
  | .onAbort _ | .startup (.error _) =>
      s.ready = .resolved → s.promptWaiter = none ∨ s.stopRequested = true ∨ s.stopped = true
  | .pendingPrompt =>
      s.exited ≠ .pending → s.stopRequested = true ∨ s.stopped = true ∨ s.ready.IsRejected
  | .onExit _ => s.stopRequested = true → s.AwaitsReady → ∃ p ∈ s.stops, p.Waits
  | .resumeStop stop (.error _) =>
      s.stops[stop]? = some (.waiting true) → s.exited ≠ .pending → s.AwaitsReady →
        ∃ p ∈ s.stops.eraseIdx stop, p.Waits
  | _ => True

instance (s : State) (e : Event) : Decidable (Meets s e) := by
  cases e with
  | startup result => cases result <;> unfold Meets <;> infer_instance
  | resumeStop stop close => cases close <;> unfold Meets <;> infer_instance
  | _ => unfold Meets; infer_instance

/-- The promise of the `g`-th call is settled, or a continuation that is due rejects it, or `ready`,
which it awaits, is rejected by a `stop()` call whose continuation is due. -/
inductive Ends (contextSize : Nat) (s : State) (g : Nat) : Prop where
  | settled (p : Promise) (hg : s.promise g = some p) (hp : p.Settled)
  | rejects (t : State) (error : String) (hg : s.promise g = some .awaitingReady)
      (hstep : step contextSize s (.resumeGenerate g) = some t)
      (ht : t.promise g = some (.rejected error))
  | stopping (stop : Nat) (phase : Stop) (hg : s.promise g = some .awaitingReady)
      (hready : s.ready = .pending) (hstop : s.stops[stop]? = some phase) (hphase : phase.Waits)
      (hdue : s.exited ≠ .pending)

/-- What holds in `s`, reached from the state `v` the fatal event has left. -/
structure AfterFailure (contextSize : Nat) (v s : State) : Prop where
  no_generation : ∀ g, s.promise g ≠ some .generating
  no_prompt : ∃ more, s.effects = v.effects ++ more ∧
    ∀ cb encoded, .answer cb encoded ∈ more → encoded = []
  none_pending : ∀ g, s.promise g ≠ none → Ends contextSize s g
  later_rejects : ∀ g, v.promise g = none → s.promise g ≠ none →
    (∃ error, s.promise g = some (.rejected error)) ∨
      ∃ t error, step contextSize s (.resumeGenerate g) = some t ∧
        t.promise g = some (.rejected error)

/-- The Runtime aborts while it waits for a prompt, and is handed the next one. -/
theorem not_afterFailure_of_idle_abort : ∃ es u v s, (requester 4096).run initial es = some u ∧
    step 4096 u (.onAbort "out of memory") = some v ∧
    (requester 4096).run v [.generate (some "hi"), .resumeGenerate 0] = some s ∧
    ¬ AfterFailure 4096 v s := by
  refine ⟨[.startup (.ok ()), .startup (.ok ()), .startup (.ok ()), .pendingPrompt], _, _, _, rfl, rfl,
    rfl, fun h => h.no_generation 0 ?_⟩
  decide

/-! ### The failed Runtime -/

/-- No prompt can be delivered, and what `generate()` calls await is settled or will be. -/
structure Dead (s : State) : Prop where
  exited : s.exited ≠ .pending
  idle : s.activeGeneration = none
  closed : s.ready = .resolved → s.promptWaiter = none ∨ s.stopRequested = true ∨ s.stopped = true
  stopping : s.ready = .pending → s.stopRequested = true
  ends : s.AwaitsReady → ∃ p ∈ s.stops, p.Waits

variable {contextSize : Nat} {s t : State} {e : Event} {g : Nat}

@[simp] theorem settleReject_ne_pending (d : Deferred) (error : String) :
    d.settleReject error ≠ .pending := by
  cases d <;> simp [Deferred.settleReject]

@[simp] theorem settleResolve_ne_pending (d : Deferred) : d.settleResolve ≠ .pending := by
  cases d <;> simp [Deferred.settleResolve]

@[simp] theorem settleReject_eq_resolved {d : Deferred} {error : String} :
    d.settleReject error = .resolved ↔ d = .resolved := by
  cases d <;> simp [Deferred.settleReject]

theorem not_isRejected_of_settleResolve {d : Deferred} (h : d.settleResolve = .resolved) :
    ¬ d.IsRejected := by
  cases d <;> simp_all [Deferred.settleResolve, Deferred.IsRejected]

theorem step_ready (h : step contextSize s e = some t) (hs : s.ready ≠ .pending) :
    t.ready ≠ .pending := by
  cases step_moves h with
  | onExit code _ =>
      dsimp only
      split
      · exact hs
      · exact settleReject_ne_pending _ _
  | startupFailed | pendingPrompt | onAbort | finished => simp
  | _ => exact hs

theorem step_exited (h : step contextSize s e = some t) (hs : s.exited ≠ .pending) :
    t.exited ≠ .pending := by
  cases step_moves h with
  | onExit code _ =>
      dsimp only
      split
      · exact settleResolve_ne_pending _
      · exact settleReject_ne_pending _ _
  | startupFailed | startRefused | onAbort => simp
  | _ => exact hs

/-- Once `stop()` was called, no further `generate()` call comes to await `ready`. -/
theorem step_awaitsReady (h : step contextSize s e = some t) (hstop : s.stopRequested = true)
    (ht : t.AwaitsReady) : s.AwaitsReady := by
  obtain ⟨hready, call, hmem, hwait⟩ := ht
  obtain ⟨g, hcall⟩ := List.mem_iff_getElem?.mp hmem
  have hg : t.promise g = some .awaitingReady := promise_eq_some_iff.mpr ⟨call, hcall, hwait⟩
  have hs : s.promise g = some .awaitingReady := by
    cases step_fate h g with
    | kept hkept _ => rw [← promise_of_kept hkept, hg]
    | called c _ hnew hc =>
        rw [hnew, Option.some.injEq] at hcall
        subst hcall
        rcases hc with ⟨hnot, -⟩ | ⟨error, hc⟩
        · simp [hstop] at hnot
        · simp [hc] at hwait
    | refused error hs _ => exact hs
    | handedOver _ _ hnew => simp [hnew] at hg
    | settled _ _ hnew =>
        rw [hnew, Option.some.injEq] at hg
        rcases verdict_cases s e with hv | ⟨error, hv⟩ <;> simp [hv] at hg
  obtain ⟨call, hcall, hwait⟩ := promise_eq_some_iff.mp hs
  refine ⟨?_, call, List.mem_of_getElem? hcall, hwait⟩
  by_contra hne
  exact step_ready h hne hready

theorem dead_of_fatal (hmeets : Meets s e) (hfatal : e.Fatal) (h : step contextSize s e = some t) :
    Dead t := by
  have hawaits := step_awaitsReady h
  cases step_moves h with
  | startupFailed | onAbort =>
      exact
        { exited := settleReject_ne_pending _ _
          idle := rfl
          closed := fun hready => hmeets (settleReject_eq_resolved.mp hready)
          stopping := fun hready => absurd hready (settleReject_ne_pending _ _)
          ends := fun hready => absurd hready.1 (settleReject_ne_pending _ _) }
  | onExit code _ =>
      have hstopping : (if s.stopRequested then s.ready else s.ready.settleReject (exitError code)) =
          .pending → s.stopRequested = true := by
        intro hready
        by_contra hstop
        rw [if_neg hstop] at hready
        exact settleReject_ne_pending _ _ hready
      exact
        { exited := by
            dsimp only
            split
            · exact settleResolve_ne_pending _
            · exact settleReject_ne_pending _ _
          idle := rfl
          closed := fun _ => .inr (.inr rfl)
          stopping := hstopping
          ends := fun hready =>
            have hstop := hstopping hready.1
            hmeets hstop (hawaits hstop hready) }
  | _ => exact hfatal.elim

theorem Dead.no_hand_over (hdead : Dead s) (hready : s.ready = .resolved) {cb : Nat}
    (hwaiter : s.promptWaiter = some cb) (hstop : s.stopRequested = false) :
    s.stopped = true := by
  rcases hdead.closed hready with h | h | h
  · simp [hwaiter] at h
  · simp [hstop] at h
  · exact h

theorem Dead.idle_step (hdead : Dead s) (h : step contextSize s e = some t) :
    t.activeGeneration = none := by
  cases step_moves h with
  | handedOver g cb call _ _ hready hstop hstopped _ hwaiter =>
      simp [hdead.no_hand_over hready hwaiter hstop] at hstopped
  | startupFailed | pendingPrompt | onExit | onAbort | finished => rfl
  | _ => exact hdead.idle

theorem Dead.closed_step (hdead : Dead s) (hmeets : Meets s e) (h : step contextSize s e = some t)
    (hready : t.ready = .resolved) :
    t.promptWaiter = none ∨ t.stopRequested = true ∨ t.stopped = true := by
  cases step_moves h with
  | startupFailed | onAbort | finished => exact hdead.closed (settleReject_eq_resolved.mp hready)
  | pendingPrompt _ hwaiter =>
      rcases hmeets hdead.exited with h | h | h
      · exact .inr (.inl h)
      · exact .inr (.inr h)
      · exact absurd h (not_isRejected_of_settleResolve hready)
  | onExit | startRefused => exact .inr (.inr rfl)
  | handedOver | stop => exact .inl rfl
  | _ => exact hdead.closed hready

theorem Dead.stopping_step (hdead : Dead s) (h : step contextSize s e = some t)
    (hready : t.ready = .pending) : t.stopRequested = true := by
  refine (step_stopRequested h).mpr (.inl (hdead.stopping ?_))
  by_contra hne
  exact step_ready h hne hready

theorem Dead.ends_step (hdead : Dead s) (hmeets : Meets s e) (h : step contextSize s e = some t)
    (hawaits : t.AwaitsReady) : ∃ p ∈ t.stops, p.Waits := by
  have hready : s.ready = .pending := by
    by_contra hne
    exact step_ready h hne hawaits.1
  have hs := step_awaitsReady h (hdead.stopping hready) hawaits
  obtain ⟨p, hp, hwaits⟩ := hdead.ends hs
  cases step_moves h with
  | stop => exact ⟨p, List.mem_append_left _ hp, hwaits⟩
  | expired _ hexited | forcedExpired _ hexited => exact absurd hexited hdead.exited
  | closeThrew stop error hstop =>
      obtain ⟨q, hq, hwaits⟩ := hmeets hstop hdead.exited hs
      obtain ⟨i, hne, hi⟩ := List.mem_eraseIdx_iff_getElem?.mp hq
      refine ⟨q, List.mem_iff_getElem?.mpr ⟨i, ?_⟩, hwaits⟩
      rw [List.getElem?_set_ne hne.symm, hi]
  | forced stop hstop =>
      obtain ⟨hlt, -⟩ := List.getElem?_eq_some_iff.mp hstop
      exact ⟨.forced false, List.mem_set hlt _, trivial⟩
  | finished => exact absurd hawaits.1 (settleReject_ne_pending _ _)
  | _ => exact ⟨p, hp, hwaits⟩

theorem Dead.keeps (hdead : Dead s) (hmeets : Meets s e) (h : step contextSize s e = some t) :
    Dead t where
  exited := step_exited h hdead.exited
  idle := hdead.idle_step h
  closed := hdead.closed_step hmeets h
  stopping := hdead.stopping_step h
  ends := hdead.ends_step hmeets h

theorem Dead.resume_rejects (hdead : Dead s) (hready : s.ready ≠ .pending)
    (hg : s.promise g = some .awaitingReady) :
    ∃ t error, step contextSize s (.resumeGenerate g) = some t ∧
      t.promise g = some (.rejected error) := by
  obtain ⟨⟨prompt, encoded, promise⟩, hcall, rfl⟩ := promise_eq_some_iff.mp hg
  have hdue : ∃ t, step contextSize s (.resumeGenerate g) = some t := by
    simp only [step, State.resumeGenerate, hcall]
    cases hr : s.ready with
    | pending => exact absurd hr hready
    | resolved | rejected error => exact ⟨_, rfl⟩
  obtain ⟨t, hstep⟩ := hdue
  refine ⟨t, ?_⟩
  cases step_moves hstep with
  | resumeRefused _ error hg _ => exact ⟨error, hstep, promise_modify rfl (by simp [hg])⟩
  | handedOver _ cb call _ _ hready hstop hstopped _ hwaiter =>
      simp [hdead.no_hand_over hready hwaiter hstop] at hstopped

theorem Dead.step_effects (hdead : Dead s) (h : step contextSize s e = some t) :
    ∃ more, t.effects = s.effects ++ more ∧ ∀ cb encoded, .answer cb encoded ∈ more → encoded = [] := by
  cases step_moves h with
  | startupFailed | onAbort | started | closeThrew => exact ⟨_, rfl, by simp⟩
  | factoryResolved =>
      dsimp only
      split
      · exact ⟨_, rfl, by simp⟩
      · exact ⟨[], by simp⟩
  | pendingPrompt =>
      dsimp only
      split
      · exact ⟨_, rfl, by simp⟩
      · exact ⟨[], by simp⟩
  | onExit =>
      dsimp only
      split
      · exact ⟨[], by simp⟩
      · exact ⟨_, rfl, by simp⟩
  | forced =>
      dsimp only
      split
      · exact ⟨[.closePeerManager, .forceExit], by simp⟩
      · exact ⟨_, rfl, by simp⟩
  | handedOver g cb call _ _ hready hstop hstopped _ hwaiter =>
      simp [hdead.no_hand_over hready hwaiter hstop] at hstopped
  | stop => exact ⟨_, rfl, by simp⟩
  | _ => exact ⟨[], by simp⟩

/-! ### Whole runs -/

variable {es : List Event}

theorem run_dead (hdead : Dead s) (halong : (requester contextSize).Along Meets s es)
    (hrun : (requester contextSize).run s es = some t) : Dead t :=
  run_keeps_along (fun _ _ _ hu hmeets hstep => hu.keeps hmeets hstep) hdead halong hrun

theorem run_effects (hdead : Dead s) (halong : (requester contextSize).Along Meets s es)
    (hrun : (requester contextSize).run s es = some t) :
    ∃ more, t.effects = s.effects ++ more ∧ ∀ cb encoded, .answer cb encoded ∈ more → encoded = [] := by
  refine (run_keeps_along (P := fun u => Dead u ∧ ∃ more, u.effects = s.effects ++ more ∧
    ∀ cb encoded, .answer cb encoded ∈ more → encoded = []) ?_ ⟨hdead, [], by simp⟩ halong hrun).2
  rintro u f v ⟨hu, more, hmore, hempty⟩ hmeets hstep
  obtain ⟨new, hnew, hempty'⟩ := hu.step_effects hstep
  refine ⟨hu.keeps hmeets hstep, more ++ new, by rw [hnew, hmore, List.append_assoc], ?_⟩
  intro cb encoded hmem
  rcases List.mem_append.mp hmem with hmem | hmem
  · exact hempty cb encoded hmem
  · exact hempty' cb encoded hmem

/-- A call made after the failure: not there yet, refused, or with a settled `ready` to await. -/
def Late (g : Nat) (s : State) : Prop :=
  s.promise g = none ∨ (∃ error, s.promise g = some (.rejected error)) ∨
    s.promise g = some .awaitingReady ∧ s.ready ≠ .pending

theorem Dead.late_step (hdead : Dead s) (hinv : Inv contextSize s) (hlate : Late g s)
    (h : step contextSize s e = some t) : Late g t := by
  cases step_fate h g with
  | kept hkept _ =>
      have hp := promise_of_kept hkept
      unfold Late at hlate ⊢
      rw [hp]
      exact hlate.imp_right (.imp_right fun hl => ⟨hl.1, step_ready h hl.2⟩)
  | called c _ hnew hc =>
      rcases hc with ⟨hstop, hwait, -⟩ | ⟨error, hc⟩
      · refine .inr (.inr ⟨by rw [State.promise, hnew, Option.map_some, hwait], step_ready h ?_⟩)
        intro hready
        simp [hdead.stopping hready] at hstop
      · exact .inr (.inl ⟨error, by rw [State.promise, hnew, Option.map_some, hc]⟩)
  | refused error _ hnew => exact .inr (.inl ⟨error, hnew⟩)
  | handedOver he hs hnew =>
      have hidle := hdead.idle_step h
      have hactive := (hinv.step h).active_iff g |>.mpr hnew
      simp [hidle] at hactive
  | settled hgen _ _ =>
      have hactive := (hinv.active_iff g).mpr hgen
      simp [hdead.idle] at hactive

theorem run_late (hdead : Dead s) (hinv : Inv contextSize s) (hs : s.promise g = none)
    (halong : (requester contextSize).Along Meets s es)
    (hrun : (requester contextSize).run s es = some t) : Late g t := by
  refine (run_keeps_along (P := fun u => Dead u ∧ Inv contextSize u ∧ Late g u) ?_
    ⟨hdead, hinv, .inl hs⟩ halong hrun).2.2
  rintro u f v ⟨hu, hinv, hlate⟩ hmeets hstep
  exact ⟨hu.keeps hmeets hstep, hinv.step hstep, hu.late_step hinv hlate hstep⟩

theorem Dead.ends_of_promise (hdead : Dead s) (hinv : Inv contextSize s) (hg : s.promise g ≠ none) :
    Ends contextSize s g := by
  obtain ⟨p, hp⟩ := Option.ne_none_iff_exists'.mp hg
  cases p with
  | generating =>
      have hactive := (hinv.active_iff g).mpr hp
      simp [hdead.idle] at hactive
  | resolved | rejected error => exact .settled _ hp trivial
  | awaitingReady =>
      by_cases hready : s.ready = .pending
      · obtain ⟨call, hcall, hwait⟩ := promise_eq_some_iff.mp hp
        obtain ⟨phase, hmem, hphase⟩ := hdead.ends ⟨hready, call, List.mem_of_getElem? hcall, hwait⟩
        obtain ⟨stop, hstop⟩ := List.mem_iff_getElem?.mp hmem
        exact .stopping stop phase hp hready hstop hphase hdead.exited
      · obtain ⟨t, error, hstep, ht⟩ := hdead.resume_rejects hready hp
        exact .rejects t error hp hstep ht

/-- **A failed Runtime is left alone** along every run whose steps meet the condition. -/
theorem after_failure {es₁ es₂ : List Event} {f : Event} {u v : State}
    (hmeets : (requester contextSize).Along Meets initial (es₁ ++ f :: es₂))
    (hrun₁ : (requester contextSize).run initial es₁ = some u) (hfatal : f.Fatal)
    (hstep : step contextSize u f = some v) (hrun₂ : (requester contextSize).run v es₂ = some s) :
    AfterFailure contextSize v s := by
  have hu : (requester contextSize).Along Meets u (f :: es₂) := ((along_append hrun₁).mp hmeets).2
  have halong : (requester contextSize).Along Meets v es₂ := hu.2 v hstep
  have hdead : Dead v := dead_of_fatal hu.1 hfatal hstep
  have hinv : Inv contextSize v := (inv_of_reachable ⟨es₁, hrun₁⟩).step hstep
  have hend : Dead s := run_dead hdead halong hrun₂
  have hinv' : Inv contextSize s := run_inv hinv hrun₂
  exact
    { no_generation := fun g hg => by
        have hactive := (hinv'.active_iff g).mpr hg
        simp [hend.idle] at hactive
      no_prompt := run_effects hdead halong hrun₂
      none_pending := fun g hg => hend.ends_of_promise hinv' hg
      later_rejects := fun g hv hg => by
        rcases run_late hdead hinv hv halong hrun₂ with hnone | hrejected | ⟨hwait, hready⟩
        · exact absurd hnone hg
        · exact .inl hrejected
        · exact .inr (hend.resume_rejects hready hwait) }

/-- An abort in the middle of a generation. -/
theorem after_failure_generating : ∃ v s, AfterFailure 4096 v s := by
  have hmeets : (requester 4096).Along Meets initial
      ([.startup (.ok ()), .startup (.ok ()), .startup (.ok ()), .pendingPrompt,
        .generate (some "one"), .resumeGenerate 0] ++
        .onAbort "out of memory" :: [.generate (some "two"), .resumeGenerate 1]) := by
    decide
  exact ⟨_, _, after_failure hmeets rfl trivial rfl rfl⟩

end LlmRuntime.Requester
