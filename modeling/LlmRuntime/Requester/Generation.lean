import LlmRuntime.Requester.Steps

/-!
# A generation is resolved only by its own answer

A generation that is not running is not touched by any event, so what a whole run does to it is read
off the first settling event after its prompt was handed over.
-/

namespace LlmRuntime.Requester

open Transition

/-- Settled for good. -/
def Promise.Settled : Promise → Prop
  | .resolved | .rejected _ => True
  | _ => False

/-- The events that cut a running generation short. -/
def Event.Interrupts : Event → Prop
  | .stop | .onExit _ | .onAbort _ | .startup (.error _) => True
  | _ => False

/-- The events that settle a running generation. The continuation of a `stop()` reaches the final
backstop unless it is the one of a first wait that expired. -/
def Settles (s : State) : Event → Prop
  | .pendingPrompt | .onExit _ | .onAbort _ | .startup (.error _) => True
  | .resumeStop stop _ => s.stops[stop]? ≠ some (.waiting true)
  | _ => False

/-- How a settling event settles the generation that is running. -/
def verdict (s : State) : Event → Promise
  | .pendingPrompt => if s.stopRequested then .rejected stopError else .resolved
  | .onExit code => .rejected (if s.stopRequested then stopError else exitError code)
  | .onAbort reason => .rejected (abortError reason)
  | .startup (.error error) => .rejected error
  | _ => .rejected stopError

/-- The step from `s` to `t` hands the prompt of the `g`-th call to the callback `cb` of C++. -/
structure HandsOver (contextSize : Nat) (s : State) (g cb : Nat) (call : Call) (t : State) : Prop where
  call_eq : s.calls[g]? = some call
  waiting : s.promptWaiter = some cb
  idle : s.activeGeneration = none
  notStopping : s.stopRequested = false
  own : call.Encoded contextSize
  answered : t.effects = s.effects ++ [.answer cb call.encoded]
  active : t.activeGeneration = some g
  generating : t.promise g = some .generating

/-- The generation `activeGeneration` names is the one whose promise is pending, and a suspended call
keeps the encoding of its own prompt. -/
structure Inv (contextSize : Nat) (s : State) : Prop where
  active_iff : ∀ g, s.activeGeneration = some g ↔ s.promise g = some .generating
  encoded : ∀ (g : Nat) (call : Call), s.calls[g]? = some call → call.promise = .awaitingReady →
    call.Encoded contextSize

theorem verdict_eq_resolved_iff {s : State} {e : Event} :
    verdict s e = .resolved ↔ e = .pendingPrompt ∧ s.stopRequested = false := by
  cases e with
  | startup result => cases result <;> simp [verdict]
  | _ => simp [verdict]

theorem verdict_cases (s : State) (e : Event) :
    verdict s e = .resolved ∨ ∃ error, verdict s e = .rejected error := by
  cases e with
  | pendingPrompt => cases h : s.stopRequested <;> simp [verdict, h]
  | startup result => cases result <;> exact .inr ⟨_, rfl⟩
  | _ => exact .inr ⟨_, rfl⟩

/-! ### One step -/

variable {contextSize : Nat} {s t : State} {e : Event} {g : Nat}

theorem getElem?_endedCalls (s : State) (p : Promise) (g : Nat) :
    (s.endedCalls p)[g]? =
      if s.activeGeneration = some g then s.calls[g]?.map (Call.settle p) else s.calls[g]? := by
  cases hactive : s.activeGeneration with
  | none => simp [State.endedCalls, hactive]
  | some done => by_cases hg : done = g <;> simp [State.endedCalls, hactive, hg]

theorem Call.settle_of_ne {c : Call} {p : Promise} (h : c.promise ≠ .generating) : c.settle p = c :=
  if_neg h

theorem promise_eq_some_iff {p : Promise} :
    s.promise g = some p ↔ ∃ call, s.calls[g]? = some call ∧ call.promise = p := by
  rw [State.promise, Option.map_eq_some_iff]

/-- A call a step has just recorded: suspended with its own prompt encoded, or refused. -/
def Fresh (contextSize : Nat) (s : State) (c : Call) : Prop :=
  (s.stopRequested = false ∧ c.promise = .awaitingReady ∧ c.Encoded contextSize) ∨
    ∃ error, c.promise = .rejected error

/-- What a step can do to the `g`-th call. -/
inductive Fate (contextSize : Nat) (s : State) (e : Event) (t : State) (g : Nat) : Prop where
  | kept (h : t.calls[g]? = s.calls[g]?)
      (hquiet : s.activeGeneration = some g → s.promise g = some .generating → ¬ Settles s e)
  | called (c : Call) (hs : s.calls[g]? = none) (ht : t.calls[g]? = some c)
      (hc : Fresh contextSize s c)
  | refused (error : String) (hs : s.promise g = some .awaitingReady)
      (ht : t.promise g = some (.rejected error))
  | handedOver (he : e = .resumeGenerate g) (hs : s.promise g = some .awaitingReady) (ht : t.promise g = some .generating)
  | settled (hs : s.promise g = some .generating) (hsettles : Settles s e)
      (ht : t.promise g = some (verdict s e))

theorem fate_of_endedCalls (hsettles : Settles s e) (h : t.calls = s.endedCalls (verdict s e)) (g : Nat) :
    Fate contextSize s e t g := by
  by_cases hactive : s.activeGeneration = some g
  · have hcalls : t.calls[g]? = s.calls[g]?.map (Call.settle (verdict s e)) := by
      rw [h, getElem?_endedCalls, if_pos hactive]
    cases hcall : s.calls[g]? with
    | none => exact .kept (by rw [hcalls, hcall, Option.map_none]) (by simp [State.promise, hcall])
    | some c =>
        by_cases hc : c.promise = .generating
        · exact .settled (by simp [State.promise, hcall, hc]) hsettles
            (by simp [State.promise, hcalls, hcall, Call.settle, hc])
        · exact .kept (by rw [hcalls, hcall, Option.map_some, Call.settle_of_ne hc])
            (by simp [State.promise, hcall, hc])
  · exact .kept (by rw [h, getElem?_endedCalls, if_neg hactive]) (fun h => absurd h hactive)

theorem fate_of_append {c : Call} (h : t.calls = s.calls ++ [c]) (hquiet : ¬ Settles s e)
    (hc : Fresh contextSize s c) (g : Nat) : Fate contextSize s e t g := by
  rcases Nat.lt_trichotomy g s.calls.length with hlt | heq | hgt
  · exact .kept (by rw [h, List.getElem?_append_left hlt]) fun _ _ => hquiet
  · subst heq
    exact .called c (by simp) (by simp [h]) hc
  · refine .kept ?_ fun _ _ => hquiet
    rw [h, List.getElem?_eq_none (by simp; omega), List.getElem?_eq_none (by omega)]

theorem promise_modify {p : Promise} (h : t.calls = s.calls.modify g fun c => { c with promise := p })
    (hg : s.promise g ≠ none) : t.promise g = some p := by
  cases hcall : s.calls[g]? with
  | none => simp [State.promise, hcall] at hg
  | some c => simp [State.promise, h, hcall]

theorem step_fate (h : step contextSize s e = some t) (g : Nat) : Fate contextSize s e t g := by
  cases step_moves h with
  | startupFailed | pendingPrompt | onExit | onAbort => exact fate_of_endedCalls (e := _) (by simp [Settles]) rfl g
  | finished stop close clean hstop =>
      refine fate_of_endedCalls ?_ rfl g
      simp only [Settles]
      intro hfirst
      cases clean <;> simp [hfirst] at hstop
  | refused prompt error _ => exact fate_of_append rfl (by simp [Settles]) (.inr ⟨error, rfl⟩) g
  | suspended prompt encoded hstop _ hencoded =>
      exact fate_of_append rfl (by simp [Settles]) (.inl ⟨hstop, rfl, hencoded⟩) g
  | resumeRefused g' error hg' _ =>
      by_cases hg : g' = g
      · subst g'
        exact .refused error hg' (promise_modify rfl (by simp [hg']))
      · exact .kept (by simp [hg]) fun _ _ => by simp [Settles]
  | handedOver g' cb call hcall hwait =>
      have hg' : s.promise g' = some .awaitingReady := by simp [State.promise, hcall, hwait]
      by_cases hg : g' = g
      · subst g'
        exact .handedOver rfl hg' (promise_modify rfl (by simp [hg']))
      · exact .kept (by simp [hg]) fun _ _ => by simp [Settles]
  | closeThrew stop _ hstop | forced stop hstop => exact .kept rfl fun _ _ h => h hstop
  | _ => exact .kept rfl fun _ _ => by simp [Settles]

theorem promise_of_kept (h : t.calls[g]? = s.calls[g]?) : t.promise g = s.promise g := by
  rw [State.promise, h, State.promise]

theorem step_settled {p : Promise} (h : step contextSize s e = some t) (hg : s.promise g = some p)
    (hp : p.Settled) : t.promise g = some p := by
  cases step_fate h g with
  | kept hcall _ => rw [promise_of_kept hcall, hg]
  | called c hs _ _ => simp [State.promise, hs] at hg
  | refused error hs _ | handedOver _ hs _ | settled hs _ _ =>
      cases hg.symm.trans hs
      exact hp.elim

/-- The running generation goes on until an event settles it. -/
theorem step_generating (hinv : Inv contextSize s) (h : step contextSize s e = some t)
    (hg : s.promise g = some .generating) :
    (Settles s e → t.promise g = some (verdict s e)) ∧
      (¬ Settles s e → t.promise g = some .generating) := by
  cases step_fate h g with
  | kept hcall hquiet =>
      have hnot := hquiet ((hinv.active_iff g).mpr hg) hg
      exact ⟨fun hsettles => absurd hsettles hnot, fun _ => by rw [promise_of_kept hcall, hg]⟩
  | called c hs _ _ => simp [State.promise, hs] at hg
  | refused error hs _ | handedOver _ hs _ => simp [hs] at hg
  | settled _ hsettles ht => exact ⟨fun _ => ht, fun hnot => absurd hsettles hnot⟩

theorem Fresh.promise_ne {c : Call} (hc : Fresh contextSize s c) :
    c.promise ≠ .generating ∧ c.promise ≠ .resolved := by
  rcases hc with ⟨-, hc, -⟩ | ⟨error, hc⟩ <;> simp [hc]

/-- A promise starts to be a running generation's only in the continuation of its own call. -/
theorem step_starts (h : step contextSize s e = some t) (hs : s.promise g ≠ some .generating)
    (ht : t.promise g = some .generating) : e = .resumeGenerate g := by
  cases step_fate h g with
  | kept hcall _ => exact absurd (promise_of_kept hcall ▸ ht) hs
  | called c _ hnew hc =>
      rw [State.promise, hnew, Option.map_some, Option.some.injEq] at ht
      exact absurd ht hc.promise_ne.1
  | refused error _ hnew => simp [hnew] at ht
  | handedOver he _ _ => exact he
  | settled hgen _ _ => exact absurd hgen hs

/-- A promise is resolved only by an event that settles the running generation so. -/
theorem step_resolves (h : step contextSize s e = some t) (hs : s.promise g ≠ some .resolved)
    (ht : t.promise g = some .resolved) :
    s.promise g = some .generating ∧ e = .pendingPrompt ∧ s.stopRequested = false := by
  cases step_fate h g with
  | kept hcall _ => exact absurd (promise_of_kept hcall ▸ ht) hs
  | called c _ hnew hc =>
      rw [State.promise, hnew, Option.map_some, Option.some.injEq] at ht
      exact absurd ht hc.promise_ne.2
  | refused error _ hnew | handedOver _ _ hnew => simp [hnew] at ht
  | settled hgen _ hnew =>
      rw [hnew, Option.some.injEq] at ht
      exact ⟨hgen, verdict_eq_resolved_iff.mp ht⟩

theorem Inv.initial : Inv contextSize initial := by
  constructor
  · intro g
    simp [State.promise, Requester.initial]
  · intro g call hcall
    simp [Requester.initial] at hcall

/-- What a step does to `activeGeneration`. -/
theorem step_active (hinv : Inv contextSize s) (h : step contextSize s e = some t) :
    (Settles s e ∧ t.activeGeneration = none) ∨
      (¬ Settles s e ∧ t.activeGeneration = s.activeGeneration ∧
        ∀ g, e = .resumeGenerate g → t.promise g ≠ some .generating) ∨
      ∃ g cb call, e = .resumeGenerate g ∧ HandsOver contextSize s g cb call t := by
  cases step_moves h with
  | startupFailed | pendingPrompt | onExit | onAbort => exact .inl ⟨by simp [Settles], rfl⟩
  | finished stop close clean hstop =>
      refine .inl ⟨?_, rfl⟩
      simp only [Settles]
      intro hfirst
      cases clean <;> simp [hfirst] at hstop
  | resumeRefused g error hg _ =>
      refine .inr (.inl ⟨by simp [Settles], rfl, ?_⟩)
      intro g' hg'
      cases hg'
      rw [promise_modify rfl (by simp [hg])]
      simp
  | handedOver g cb call hcall hwait _ hstop _ hidle hwaiter =>
      have hg : s.promise g = some .awaitingReady := promise_eq_some_iff.mpr ⟨call, hcall, hwait⟩
      exact .inr (.inr ⟨g, cb, call, rfl,
        { call_eq := hcall
          waiting := hwaiter
          idle := hidle
          notStopping := hstop
          own := hinv.encoded g call hcall hwait
          answered := rfl
          active := rfl
          generating := promise_modify rfl (by simp [hg]) }⟩)
  | closeThrew stop _ hstop | forced stop hstop =>
      exact .inr (.inl ⟨fun hsettles => hsettles hstop, rfl, by simp⟩)
  | _ => exact .inr (.inl ⟨by simp [Settles], rfl, by simp⟩)

theorem Inv.active_iff_step (hinv : Inv contextSize s) (h : step contextSize s e = some t) (g : Nat) :
    t.activeGeneration = some g ↔ t.promise g = some .generating := by
  rcases step_active hinv h with ⟨hsettles, hactive⟩ | ⟨hquiet, hactive, hnew⟩ | ⟨g', cb, call, he, hover⟩
  · rw [hactive]
    refine ⟨fun hnone => by simp at hnone, fun hgen => ?_⟩
    by_cases hs : s.promise g = some .generating
    · rw [(step_generating hinv h hs).1 hsettles, Option.some.injEq] at hgen
      rcases verdict_cases s e with hv | ⟨error, hv⟩ <;> simp [hv] at hgen
    · have he := step_starts h hs hgen
      simp [he, Settles] at hsettles
  · rw [hactive, hinv.active_iff g]
    constructor
    · exact (step_generating hinv h · |>.2 hquiet)
    · intro hgen
      by_contra hs
      exact hnew g (step_starts h hs hgen) hgen
  · rw [hover.active, Option.some.injEq]
    constructor
    · rintro rfl
      exact hover.generating
    · intro hgen
      have hs : s.promise g ≠ some .generating := by
        rw [Ne, ← hinv.active_iff g, hover.idle]
        simp
      have hg := he.symm.trans (step_starts h hs hgen)
      cases hg
      rfl

theorem Inv.step (hinv : Inv contextSize s) (h : step contextSize s e = some t) : Inv contextSize t := by
  refine ⟨hinv.active_iff_step h, fun g call hcall hwait => ?_⟩
  have hp : t.promise g = some .awaitingReady := promise_eq_some_iff.mpr ⟨call, hcall, hwait⟩
  cases step_fate h g with
  | kept hkept _ => exact hinv.encoded g call (hkept ▸ hcall) hwait
  | called c _ hnew hc =>
      rw [hnew] at hcall
      cases hcall
      rcases hc with ⟨-, -, hc⟩ | ⟨error, hc⟩
      · exact hc
      · simp [hc] at hwait
  | refused error _ hnew | handedOver _ _ hnew => simp [hnew] at hp
  | settled _ _ hnew =>
      rw [hnew, Option.some.injEq] at hp
      rcases verdict_cases s e with hv | ⟨error, hv⟩ <;> simp [hv] at hp

theorem inv_of_reachable (h : (requester contextSize).Reachable s) : Inv contextSize s :=
  h.keeps .initial fun _ _ _ hinv hstep => hinv.step hstep

theorem step_stopRequested (h : step contextSize s e = some t) :
    t.stopRequested = true ↔ s.stopRequested = true ∨ e = .stop := by
  cases step_moves h <;> simp

/-- Where a promise is generating and was not before, the prompt was handed to C++. -/
theorem step_hands_over (hinv : Inv contextSize s) (h : step contextSize s e = some t)
    (hs : s.promise g ≠ some .generating) (ht : t.promise g = some .generating) :
    e = .resumeGenerate g ∧ ∃ cb call, HandsOver contextSize s g cb call t := by
  have he := step_starts h hs ht
  refine ⟨he, ?_⟩
  rcases step_active hinv h with ⟨hsettles, -⟩ | ⟨-, -, hnew⟩ | ⟨g', cb, call, he', hover⟩
  · simp [he, Settles] at hsettles
  · exact absurd ht (hnew g he)
  · cases he'.symm.trans he
    exact ⟨cb, call, hover⟩

/-! ### Whole runs -/

variable {es : List Event}

theorem run_settled {p : Promise} (hrun : (requester contextSize).run s es = some t)
    (hg : s.promise g = some p) (hp : p.Settled) : t.promise g = some p :=
  run_keeps (P := fun u => u.promise g = some p) (fun _ _ _ hu hstep => step_settled hstep hu hp) hg hrun

theorem run_inv (hinv : Inv contextSize s) (hrun : (requester contextSize).run s es = some t) :
    Inv contextSize t :=
  run_keeps (fun _ _ _ hu hstep => hu.step hstep) hinv hrun

theorem run_stopRequested (hrun : (requester contextSize).run s es = some t) :
    t.stopRequested = true ↔ s.stopRequested = true ∨ .stop ∈ es := by
  induction es generalizing s with
  | nil =>
      simp only [run_nil, Option.some.injEq] at hrun
      simp [hrun]
  | cons e es ih =>
      obtain ⟨u, hstep, hrest⟩ := run_cons.mp hrun
      rw [ih hrest, step_stopRequested hstep, List.mem_cons, or_assoc, eq_comm (a := e)]

/-- The events from a hand-over on, up to the first one that settles the generation. -/
theorem run_generating (hinv : Inv contextSize s) (hrun : (requester contextSize).run s es = some t)
    (hg : s.promise g = some .generating) :
    ((requester contextSize).Along (fun u f => ¬ Settles u f) s es ∧ t.promise g = some .generating) ∨
      ∃ es₁ e es₂ u, es = es₁ ++ e :: es₂ ∧ (requester contextSize).run s es₁ = some u ∧
        (requester contextSize).Along (fun u f => ¬ Settles u f) s es₁ ∧
        u.promise g = some .generating ∧ Settles u e ∧ t.promise g = some (verdict u e) := by
  induction es generalizing s with
  | nil =>
      simp only [run_nil, Option.some.injEq] at hrun
      exact .inl ⟨trivial, hrun ▸ hg⟩
  | cons f es ih =>
      obtain ⟨u, hstep, hrest⟩ := run_cons.mp hrun
      by_cases hsettles : Settles s f
      · have hu : u.promise g = some (verdict s f) := (step_generating hinv hstep hg).1 hsettles
        have hset : (verdict s f).Settled := by
          rcases verdict_cases s f with hv | ⟨error, hv⟩ <;> simp [hv, Promise.Settled]
        exact .inr ⟨[], f, es, s, rfl, rfl, trivial, hg, hsettles, run_settled hrest hu hset⟩
      · have hu := (step_generating hinv hstep hg).2 hsettles
        have halong {fs : List Event} (h : (requester contextSize).Along (fun u f => ¬ Settles u f) u fs) :
            (requester contextSize).Along (fun u f => ¬ Settles u f) s (f :: fs) := by
          refine ⟨hsettles, fun u' hu' => ?_⟩
          cases hstep.symm.trans hu'
          exact h
        rcases ih (hinv.step hstep) hrest hu with ⟨hquiet, ht⟩ | ⟨es₁, e, es₂, v, rfl, hrun₁, hquiet, hv, he, ht⟩
        · exact .inl ⟨halong hquiet, ht⟩
        · exact .inr ⟨f :: es₁, e, es₂, v, rfl, run_cons.mpr ⟨u, hstep, hrun₁⟩, halong hquiet, hv, he, ht⟩

/-- What a run that started the requester, took `es` and is in `s` now says about the promises that
`generate()` returned. -/
structure Honest (contextSize : Nat) (es : List Event) (s : State) : Prop where
  one_active : ∀ g g', s.promise g = some .generating → s.promise g' = some .generating → g = g'
  settled_once : ∀ g p fs t, s.promise g = some p → p.Settled →
    (requester contextSize).run s fs = some t → t.promise g = some p
  /-- A resolved generation was answered by a `pending_prompt` after its own prompt was handed over,
  with nothing between the two that cuts it short. -/
  resolved : ∀ g, s.promise g = some .resolved →
    ∃ es₁ es₂ es₃ u v cb call, es = es₁ ++ .resumeGenerate g :: (es₂ ++ .pendingPrompt :: es₃) ∧
      (requester contextSize).run initial es₁ = some u ∧
      step contextSize u (.resumeGenerate g) = some v ∧ HandsOver contextSize u g cb call v ∧
      ∀ e ∈ es₂, ¬ e.Interrupts
  /-- A generation whose prompt was handed over is pending until the first settling event, and that
  event rejects it unless it is a `pending_prompt` without a `stop()` before it. -/
  settled_by : ∀ es₁ es₂ g u v, es = es₁ ++ .resumeGenerate g :: es₂ →
    (requester contextSize).run initial es₁ = some u →
    step contextSize u (.resumeGenerate g) = some v → v.promise g = some .generating →
    (s.promise g = some .generating ∧
        (requester contextSize).Along (fun u e => ¬ Settles u e) v es₂) ∨
      ∃ es₃ e es₄ w, es₂ = es₃ ++ e :: es₄ ∧ (requester contextSize).run v es₃ = some w ∧
        (requester contextSize).Along (fun u e => ¬ Settles u e) v es₃ ∧ Settles w e ∧
        (e = .pendingPrompt ∧ .stop ∉ es₃ → s.promise g = some .resolved) ∧
        (¬ (e = .pendingPrompt ∧ .stop ∉ es₃) → ∃ error, s.promise g = some (.rejected error))
  /-- A generation that is cut short before the next `pending_prompt` is never resolved. -/
  interrupted : ∀ es₁ es₂ es₃ e g u v, es = es₁ ++ .resumeGenerate g :: (es₂ ++ e :: es₃) →
    (requester contextSize).run initial es₁ = some u →
    step contextSize u (.resumeGenerate g) = some v → v.promise g = some .generating →
    e.Interrupts → .pendingPrompt ∉ es₂ → s.promise g ≠ some .resolved

theorem not_interrupts_of_quiet (hrun : (requester contextSize).run s es = some t)
    (hquiet : (requester contextSize).Along (fun u e => ¬ Settles u e) s es) (hstop : .stop ∉ es) :
    ∀ e ∈ es, ¬ e.Interrupts := by
  intro e he hcut
  have hne : ∀ e ∈ es, e.Interrupts → e = .stop := by
    refine hquiet.forall_mem (fun u f hf => ?_) hrun
    cases f with
    | startup result => cases result <;> simp_all [Settles, Event.Interrupts]
    | _ => simp_all [Settles, Event.Interrupts]
  exact hstop (hne e he hcut ▸ he)

theorem not_stopRequested_of_hands_over (hinv : Inv contextSize s)
    (hstep : step contextSize s (.resumeGenerate g) = some t) (ht : t.promise g = some .generating) :
    t.stopRequested = false := by
  have hs : s.promise g ≠ some .generating := by
    cases step_moves hstep with
    | resumeRefused _ error hg _ => simp [hg]
    | handedOver _ cb call hcall hwait => simp [State.promise, hcall, hwait]
  obtain ⟨-, cb, call, hover⟩ := step_hands_over hinv hstep hs ht
  rw [← Bool.not_eq_true, step_stopRequested hstep, hover.notStopping]
  simp

theorem honest_settled_by {es₂ : List Event} {v : State} (hinv : Inv contextSize s)
    (hstep : step contextSize s (.resumeGenerate g) = some v) (hv : v.promise g = some .generating)
    (hrun : (requester contextSize).run v es₂ = some t) :
    (t.promise g = some .generating ∧
        (requester contextSize).Along (fun u e => ¬ Settles u e) v es₂) ∨
      ∃ es₃ e es₄ w, es₂ = es₃ ++ e :: es₄ ∧ (requester contextSize).run v es₃ = some w ∧
        (requester contextSize).Along (fun u e => ¬ Settles u e) v es₃ ∧ Settles w e ∧
        (e = .pendingPrompt ∧ .stop ∉ es₃ → t.promise g = some .resolved) ∧
        (¬ (e = .pendingPrompt ∧ .stop ∉ es₃) → ∃ error, t.promise g = some (.rejected error)) := by
  have hnot := not_stopRequested_of_hands_over hinv hstep hv
  rcases run_generating (hinv.step hstep) hrun hv with ⟨hquiet, ht⟩ | ⟨es₃, e, es₄, w, rfl, hrun₃, hquiet, -, he, ht⟩
  · exact .inl ⟨ht, hquiet⟩
  · have hstop : w.stopRequested = false ↔ .stop ∉ es₃ := by
      rw [← Bool.not_eq_true, run_stopRequested hrun₃, hnot]
      simp
    refine .inr ⟨es₃, e, es₄, w, rfl, hrun₃, hquiet, he, ?_, ?_⟩
    · rw [← hstop, ← verdict_eq_resolved_iff, ht]
      exact congrArg some
    · rw [← hstop, ← verdict_eq_resolved_iff, ht]
      intro hne
      obtain ⟨error, herror⟩ := (verdict_cases w e).resolve_left hne
      exact ⟨error, congrArg some herror⟩

theorem resolved_of_run (hrun : (requester contextSize).run initial es = some s)
    (hg : s.promise g = some .resolved) :
    ∃ es₁ es₂ es₃ u v cb call, es = es₁ ++ .resumeGenerate g :: (es₂ ++ .pendingPrompt :: es₃) ∧
      (requester contextSize).run initial es₁ = some u ∧
      step contextSize u (.resumeGenerate g) = some v ∧ HandsOver contextSize u g cb call v ∧
      ∀ e ∈ es₂, ¬ e.Interrupts := by
  -- the step that resolves it, and before it the one that started it
  obtain ⟨fs, e, es₃, w, w', rfl, hfs, hw, hstep, hw', -⟩ :=
    exists_turn (P := fun u => u.promise g = some .resolved) hrun (by simp [State.promise, initial]) hg
  obtain ⟨hgen, rfl, hstop⟩ := step_resolves hstep hw hw'
  obtain ⟨es₁, f, es₂, u, v, rfl, hes₁, hu, hstart, hv, hes₂⟩ :=
    exists_turn (P := fun u => u.promise g = some .generating) hfs (by simp [State.promise, initial]) hgen
  have hinv : Inv contextSize u := inv_of_reachable ⟨es₁, hes₁⟩
  obtain ⟨rfl, cb, call, hover⟩ := step_hands_over hinv hstart hu hv
  refine ⟨es₁, es₂, es₃, u, v, cb, call, by simp, hes₁, hstart, hover, ?_⟩
  have hnostop : .stop ∉ es₂ := by
    intro hmem
    have := (run_stopRequested hes₂).mpr (.inr hmem)
    rw [hstop] at this
    cases this
  rcases run_generating (hinv.step (e := .resumeGenerate g) hstart) hes₂ hv with ⟨hquiet, -⟩ | ⟨es₄, e, es₅, x, -, -, -, -, -, hend⟩
  · exact not_interrupts_of_quiet hes₂ hquiet hnostop
  · rw [hgen, Option.some.injEq] at hend
    rcases verdict_cases x e with h | ⟨error, h⟩ <;> simp [h] at hend

theorem not_resolved_of_interrupted {es₂ es₃ : List Event} {v : State} (hinv : Inv contextSize s)
    (hstep : step contextSize s (.resumeGenerate g) = some v) (hv : v.promise g = some .generating)
    (hrun : (requester contextSize).run v (es₂ ++ e :: es₃) = some t) (he : e.Interrupts)
    (hnone : .pendingPrompt ∉ es₂) : t.promise g ≠ some .resolved := by
  intro hres
  have hnot := not_stopRequested_of_hands_over hinv hstep hv
  rcases run_generating (hinv.step hstep) hrun hv with ⟨-, ht⟩ | ⟨es₄, f, es₅, x, heq, hx, hquiet, -, -, ht⟩
  · simp [ht] at hres
  · rw [ht, Option.some.injEq, verdict_eq_resolved_iff] at hres
    obtain ⟨rfl, hstop⟩ := hres
    have hnostop : .stop ∉ es₄ := by
      intro hmem
      simp [(run_stopRequested hx).mpr (.inr hmem)] at hstop
    -- the interrupting event stands before the pending_prompt that resolved the promise
    have hmem : e ∈ es₄ := by
      rcases List.append_eq_append_iff.mp heq with ⟨es, rfl, hes⟩ | ⟨es, rfl, hes⟩
      · cases es with
        | nil =>
            simp only [List.nil_append, List.cons.injEq] at hes
            simp [hes.1, Event.Interrupts] at he
        | cons f es =>
            simp only [List.cons_append, List.cons.injEq] at hes
            simp [hes.1]
      · cases es with
        | nil =>
            simp only [List.nil_append, List.cons.injEq] at hes
            simp [← hes.1, Event.Interrupts] at he
        | cons f es =>
            simp only [List.cons_append, List.cons.injEq] at hes
            simp [← hes.1] at hnone
    exact not_interrupts_of_quiet hx hquiet hnostop e hmem he

/-- **Truncated output is never reported as a finished answer.** -/
theorem generation_honest (hrun : (requester contextSize).run initial es = some s) :
    Honest contextSize es s where
  one_active g g' hg hg' := by
    have hinv : Inv contextSize s := inv_of_reachable ⟨es, hrun⟩
    have heq := ((hinv.active_iff g).mpr hg).symm.trans ((hinv.active_iff g').mpr hg')
    exact Option.some.inj heq
  settled_once g p fs t hg hp hfs := run_settled hfs hg hp
  resolved g hg := resolved_of_run hrun hg
  settled_by es₁ es₂ g u v hes hes₁ hstep hv := by
    subst hes
    have hrest := run_after hrun hes₁ hstep
    exact honest_settled_by (inv_of_reachable ⟨es₁, hes₁⟩) hstep hv hrest
  interrupted es₁ es₂ es₃ e g u v hes hes₁ hstep hv he hnone := by
    subst hes
    have hrest := run_after hrun hes₁ hstep
    exact not_resolved_of_interrupted (inv_of_reachable ⟨es₁, hes₁⟩) hstep hv hrest he hnone

/-- The prompt is handed over, `stop()` comes before the answer is finished, and C++ then asks for
the next prompt. -/
theorem generation_honest_stopped : ∃ s, Honest 4096
    [.startup (.ok ()), .startup (.ok ()), .startup (.ok ()), .startup (.ok ()), .pendingPrompt,
      .generate (some "hello"), .resumeGenerate 0, .stop, .pendingPrompt, .onExit 0] s :=
  ⟨_, generation_honest rfl⟩

end LlmRuntime.Requester
