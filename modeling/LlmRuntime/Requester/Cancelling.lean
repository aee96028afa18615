import LlmRuntime.Requester.Prompting

/-!
# What the decode loop is told

C++ polls `isDecodingCancel` while it decodes. The adapter takes the running generation for what C++ is
decoding: the flag is cleared where the generation is settled, and `cancel()` sets it only where there
is one. That is right as long as a generation is settled by what ends the decoding. The backstop of
`stop()` and the `catch` of the startup task settle it without knowing that.
-/

namespace LlmRuntime.Requester

open Transition

/-- C++ no longer decodes after it. -/
def Event.EndsDecoding : Event → Prop
  | .pendingPrompt | .onExit _ | .onAbort _ => True
  | _ => False

/-- C++ is decoding at the end of the run `es`: it was given a prompt, and `since` has happened since. -/
def Decoding (contextSize : Nat) (es since : List Event) : Prop :=
  ∃ es₁ e u v cb encoded, es = es₁ ++ e :: since ∧ (requester contextSize).run initial es₁ = some u ∧
    step contextSize u e = some v ∧ v.answers = u.answers ++ [(cb, encoded)] ∧ encoded ≠ [] ∧
    ∀ f ∈ since, ¬ f.EndsDecoding

/-- The condition on a step. The startup task fails, and a `stop()` call reaches its backstop, only while
no generation is running. -/
def Spares (s : State) : Event → Prop
  | .startup (.error _) => s.activeGeneration = none
  | .resumeStop stop _ => s.stops[stop]? ≠ some (.waiting true) → s.activeGeneration = none
  | _ => True

instance (s : State) : ∀ e, Decidable (Spares s e)
  | .startup (.error _) => inferInstanceAs (Decidable (s.activeGeneration = none))
  | .resumeStop stop _ =>
      inferInstanceAs (Decidable (s.stops[stop]? ≠ some (.waiting true) → s.activeGeneration = none))
  | .startup (.ok _) | .pendingPrompt | .onExit _ | .onAbort _ | .generate _ | .resumeGenerate _ | .cancel | .stop
  | .stopTimer _ => instDecidableTrue

/-- `stop()` gives up on a Runtime that goes on decoding. -/
def givenUp : List Event :=
  [.startup (.ok ()), .startup (.ok ()), .startup (.ok ()), .pendingPrompt, .generate (some "a"),
    .resumeGenerate 0, .stop, .stopTimer 0, .resumeStop 0 (.ok ()), .stopTimer 0, .resumeStop 0 (.ok ())]

theorem flag_lost_of_givenUp : ∃ s since, (requester 4096).run initial givenUp = some s ∧
    Decoding 4096 givenUp since ∧ .stop ∈ since ∧ s.isDecodingCancel = 0 := by
  refine ⟨_, givenUp.drop 6, rfl, ?_, ?_, by decide⟩
  · refine ⟨givenUp.take 5, .resumeGenerate 0, _, _, 0, [0x61], rfl, rfl, rfl, rfl, by decide, ?_⟩
    simp [givenUp, Event.EndsDecoding]
  · simp [givenUp]

variable {contextSize : Nat} {s t : State} {e : Event} {es since : List Event}

/-- While a generation is running, only `cancel()` and `stop()` change the flag. -/
theorem step_flag (hactive : s.activeGeneration ≠ none) (hspares : Spares s e) (hends : ¬ e.EndsDecoding)
    (h : step contextSize s e = some t) :
    t.activeGeneration = s.activeGeneration ∧
      (t.cancelRequested = true ↔ s.cancelRequested = true ∨ e = .cancel ∨ e = .stop) := by
  cases step_moves h with
  | startupFailed => exact absurd hspares hactive
  | pendingPrompt | onExit | onAbort => exact absurd trivial hends
  | finished stop close clean hstop =>
      refine absurd (hspares fun hfirst => ?_) hactive
      cases clean <;> simp [hfirst] at hstop
  | handedOver g cb call hcall hwait hready hstop hstopped hidle => exact absurd hidle hactive
  | cancel => simp [Option.isSome_iff_ne_none, hactive]
  | stop => simp
  | _ => simp

/-- The other way round, a step that does not meet the condition clears the flag. -/
theorem step_flag_lost (hspares : ¬ Spares s e) (h : step contextSize s e = some t) :
    t.activeGeneration = none ∧ t.cancelRequested = false := by
  cases step_moves h with
  | startupFailed => exact ⟨rfl, by simp [Option.isNone_eq_false_iff.mpr (Option.isSome_iff_ne_none.mpr hspares)]⟩
  | finished stop close clean hstop =>
      have hactive : s.activeGeneration ≠ none := fun hnone => hspares fun _ => hnone
      exact ⟨rfl, by simp [Option.isNone_eq_false_iff.mpr (Option.isSome_iff_ne_none.mpr hactive)]⟩
  | closeThrew stop _ hfirst | forced stop hfirst => exact absurd (fun hne => absurd hfirst hne) hspares
  | _ => exact absurd trivial hspares

theorem run_flag (hactive : s.activeGeneration ≠ none) (hends : ∀ f ∈ since, ¬ f.EndsDecoding)
    (halong : (requester contextSize).Along Spares s since)
    (hrun : (requester contextSize).run s since = some t) :
    t.cancelRequested = true ↔ s.cancelRequested = true ∨ .cancel ∈ since ∨ .stop ∈ since := by
  induction since generalizing s with
  | nil =>
      cases hrun
      simp
  | cons e since ih =>
      obtain ⟨u, hstep, hrest⟩ := run_cons.mp hrun
      obtain ⟨hkept, hflag⟩ := step_flag hactive halong.1 (hends e List.mem_cons_self) hstep
      have hu : u.activeGeneration ≠ none := hkept ▸ hactive
      rw [ih hu (fun f hf => hends f (List.mem_cons_of_mem _ hf)) (halong.2 u hstep) hrest, hflag]
      simp only [List.mem_cons, eq_comm (b := e)]
      tauto

/-- **The flag tells the truth** while C++ decodes, in every run that meets the condition. -/
theorem cancel_flag (halong : (requester contextSize).Along Spares initial es)
    (hrun : (requester contextSize).run initial es = some s) (hdecoding : Decoding contextSize es since) :
    s.isDecodingCancel = 1 ↔ .cancel ∈ since ∨ .stop ∈ es := by
  obtain ⟨es₁, e, u, v, cb, encoded, rfl, hbefore, hstep, hanswers, hprompt, hends⟩ := hdecoding
  have hrest : (requester contextSize).run v since = some s := run_after hrun hbefore hstep
  have hover : ∃ g, v.activeGeneration = some g ∧ v.cancelRequested = false ∧ .stop ∉ es₁ ++ [e] := by
    have hstop : .stop ∈ es₁ ++ [e] → v.stopRequested = true := fun hmem =>
      (run_stopRequested (run_concat.mpr ⟨u, hbefore, hstep⟩)).mpr (.inr hmem)
    cases step_serves hstep with
    | nothing hsame | parks _ hsame => simp [hsame] at hanswers
    | ends _ hempty => simp_all
    | stops _ hempty => cases hwaiter : u.promptWaiter <;> simp_all
    | hands g _ _ hactive _ _ _ _ _ hclear hrunning =>
        exact ⟨g, hactive, hclear, fun hmem => by simp [hstop hmem] at hrunning⟩
  obtain ⟨g, hactive, hclear, hstop⟩ := hover
  have halong' := ((along_append hbefore).mp halong).2.2 v hstep
  have hflag := run_flag (by simp [hactive]) hends halong' hrest
  rw [hclear] at hflag
  rw [List.append_cons, List.mem_append]
  have hone : s.isDecodingCancel = 1 ↔ s.cancelRequested = true := by
    unfold State.isDecodingCancel
    split <;> simp_all
  rw [hone, hflag]
  simp [hstop]

/-- The first answer is cancelled; `stop()` waits for the second. -/
def stopping : List Event :=
  [.startup (.ok ()), .startup (.ok ()), .startup (.ok ()), .pendingPrompt, .generate (some "a"),
    .resumeGenerate 0, .cancel, .pendingPrompt, .generate (some "b"), .resumeGenerate 1, .stop, .stopTimer 0]

theorem cancel_flag_stopping : ∃ s, (requester 4096).run initial stopping = some s ∧
    s.activeGeneration = some 1 ∧ s.isDecodingCancel = 1 := by
  have hdecoding : Decoding 4096 stopping (stopping.drop 10) := by
    refine ⟨stopping.take 9, .resumeGenerate 1, _, _, 1, [0x62], rfl, rfl, rfl, rfl, by decide, ?_⟩
    simp [stopping, Event.EndsDecoding]
  refine ⟨_, rfl, by decide, (cancel_flag (by decide) rfl hdecoding).mpr ?_⟩
  simp [stopping]

end LlmRuntime.Requester
