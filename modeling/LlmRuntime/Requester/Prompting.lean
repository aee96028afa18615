import LlmRuntime.Requester.Generation

/-!
# The prompts C++ is given

C++ asks for a prompt with a callback and waits until it is called. A callback is either parked in
`promptWaiter` or was called, in the order in which C++ gave them; so none is called twice, and none is
left waiting where nothing is parked. A `stop()` call empties `promptWaiter` for good.
-/

namespace LlmRuntime.Requester

open Transition

def Effect.answer? : Effect → Option (Nat × List UInt8)
  | .answer callback encoded => some (callback, encoded)
  | _ => none

/-- The callbacks that were called, each with what it was given. -/
def State.answers (s : State) : List (Nat × List UInt8) := s.effects.filterMap Effect.answer?

/-- What the last step of a run, from `s` to `t`, gives to the callbacks of C++. -/
inductive Answers (contextSize : Nat) (es : List Event) (s t : State) : Prop where
  | nothing (h : t.answers = s.answers)
  /-- The end of the session. -/
  | empty (cb : Nat) (h : t.answers = s.answers ++ [(cb, [])]) (hstop : .stop ∈ es)
  /-- The prompt of the `g`-th call, whose generation is the one that runs from now on. -/
  | prompt (g cb : Nat) (call : Call) (hover : HandsOver contextSize s g cb call t)
      (h : t.answers = s.answers ++ [(cb, call.encoded)]) (hprompt : call.encoded ≠ [])
      (honly : ∀ g', t.promise g' = some .generating ↔ g' = g) (hstop : .stop ∉ es)

/-- The hand-over protocol along a run that ends in `s`. -/
structure Protocol (contextSize : Nat) (es : List Event) (s : State) : Prop where
  once : ∀ cb, (s.answers.map Prod.fst).count cb ≤ 1
  given : ∀ cb ∈ s.answers.map Prod.fst, cb < s.callbacks
  answers : ∀ es₁ e es₂ u v, es = es₁ ++ e :: es₂ → (requester contextSize).run initial es₁ = some u →
    step contextSize u e = some v → Answers contextSize (es₁ ++ [e]) u v
  answered : .stop ∈ es → ∀ cb < s.callbacks, cb ∈ s.answers.map Prod.fst

/-- Callbacks are called in order, all but the one that is parked; and none is parked after a `stop()`. -/
structure Served (s : State) : Prop where
  served : s.answers.map Prod.fst ++ s.promptWaiter.toList = List.range s.callbacks
  unparked : s.stopRequested = true → s.promptWaiter = none

variable {contextSize : Nat} {s t : State} {e : Event} {es : List Event}

theorem utf8BinaryString_ne_nil {text : String} (h : text ≠ "") : utf8BinaryString text ≠ [] := by
  intro hnil
  rw [utf8BinaryString, List.flatMap_eq_nil_iff] at hnil
  apply h
  rw [← String.toList_eq_nil_iff, List.eq_nil_iff_forall_not_mem]
  intro c hc
  exact String.utf8EncodeChar_ne_nil (hnil c hc)

theorem Call.Encoded.ne_nil {c : Call} (h : c.Encoded contextSize) : c.encoded ≠ [] := by
  obtain ⟨text, -, hne, hencoded, -⟩ := h
  rw [hencoded]
  exact utf8BinaryString_ne_nil hne

theorem answers_append {effects : List Effect} (h : t.effects = s.effects ++ effects) :
    t.answers = s.answers ++ effects.filterMap Effect.answer? := by
  rw [State.answers, h, List.filterMap_append]
  rfl

theorem Served.initial : Served initial := by
  constructor
  · rfl
  · intro
    rfl

/-- What a step does to the callbacks. -/
inductive Serves (s : State) (e : Event) (t : State) : Prop where
  | nothing (hanswers : t.answers = s.answers) (hcallbacks : t.callbacks = s.callbacks)
      (hwaiter : t.promptWaiter = s.promptWaiter) (hstop : t.stopRequested = s.stopRequested)
  | parks (hfree : s.promptWaiter = none) (hanswers : t.answers = s.answers)
      (hcallbacks : t.callbacks = s.callbacks + 1) (hwaiter : t.promptWaiter = some s.callbacks)
      (hstop : t.stopRequested = false)
  | ends (hfree : s.promptWaiter = none) (hanswers : t.answers = s.answers ++ [(s.callbacks, [])])
      (hcallbacks : t.callbacks = s.callbacks + 1) (hwaiter : t.promptWaiter = none)
      (hstop : s.stopRequested = true)
  | stops (he : e = .stop) (hanswers : t.answers = s.answers ++ s.promptWaiter.toList.map fun cb => (cb, []))
      (hcallbacks : t.callbacks = s.callbacks) (hwaiter : t.promptWaiter = none)
  | hands (g cb : Nat) (encoded : List UInt8) (hactive : t.activeGeneration = some g)
      (hidle : s.activeGeneration = none) (hfree : s.promptWaiter = some cb)
      (hanswers : t.answers = s.answers ++ [(cb, encoded)]) (hcallbacks : t.callbacks = s.callbacks)
      (hwaiter : t.promptWaiter = none) (hclear : t.cancelRequested = false)
      (hrunning : t.stopRequested = false)

theorem step_serves (h : step contextSize s e = some t) : Serves s e t := by
  cases step_moves h with
  | pendingPrompt hfactory hwaiter =>
      cases hstop : s.stopRequested with
      | false =>
          exact .parks hwaiter (by simp [State.answers]) rfl rfl rfl
      | true =>
          exact .ends hwaiter (by simp [State.answers, Effect.answer?]) rfl hwaiter hstop
  | handedOver g cb call hcall hwait hready hstop hstopped hidle hwaiter =>
      exact .hands g cb call.encoded rfl hidle hwaiter (by simp [State.answers, Effect.answer?]) rfl rfl rfl hstop
  | stop =>
      refine .stops rfl ?_ rfl rfl
      cases hwaiter : s.promptWaiter <;> simp [State.answers, Effect.answer?]
  | factoryResolved | forced | onExit =>
      refine .nothing ?_ rfl rfl rfl
      unfold State.answers
      dsimp only
      split <;> simp [Effect.answer?]
  | _ => exact .nothing (by simp [State.answers, Effect.answer?]) rfl rfl rfl

theorem Served.of_waiting_none (hwaiter : t.promptWaiter = none)
    (h : t.answers.map Prod.fst = List.range t.callbacks) : Served t := by
  refine ⟨?_, fun _ => hwaiter⟩
  rw [hwaiter, Option.toList_none, List.append_nil, h]

theorem Served.step (hserved : Served s) (h : step contextSize s e = some t) : Served t := by
  have hs := hserved.served
  cases step_serves h with
  | nothing hanswers hcallbacks hwaiter hstop =>
      constructor
      · rw [hanswers, hcallbacks, hwaiter, hs]
      · rw [hstop, hwaiter]
        exact hserved.unparked
  | parks hfree hanswers hcallbacks hwaiter hstop =>
      constructor
      · rw [hfree, Option.toList_none, List.append_nil] at hs
        rw [hanswers, hcallbacks, hwaiter, hs, List.range_succ]
        rfl
      · simp [hstop]
  | ends hfree hanswers hcallbacks hwaiter hstop =>
      rw [hfree, Option.toList_none, List.append_nil] at hs
      apply Served.of_waiting_none hwaiter
      rw [hanswers, hcallbacks, List.map_append, hs, List.range_succ]
      rfl
  | stops he hanswers hcallbacks hwaiter =>
      apply Served.of_waiting_none hwaiter
      rw [hanswers, hcallbacks, List.map_append, List.map_map, ← hs]
      congr 1
      exact List.map_id _
  | hands g cb encoded hactive hidle hfree hanswers hcallbacks hwaiter =>
      apply Served.of_waiting_none hwaiter
      rw [hanswers, hcallbacks, ← hs, hfree, List.map_append]
      rfl

theorem answers_of_step (hinv : Inv contextSize s) (hes : s.stopRequested = true ↔ .stop ∈ es)
    (h : step contextSize s e = some t) : Answers contextSize (es ++ [e]) s t := by
  cases step_serves h with
  | nothing hanswers | parks _ hanswers => exact .nothing hanswers
  | ends hfree hanswers hcallbacks hwaiter hstop =>
      exact .empty s.callbacks hanswers (List.mem_append_left _ (hes.mp hstop))
  | stops he hanswers hcallbacks hwaiter =>
      cases hfree : s.promptWaiter with
      | none =>
          rw [hfree] at hanswers
          exact .nothing (hanswers.trans (List.append_nil _))
      | some cb =>
          rw [hfree] at hanswers
          exact .empty cb hanswers (by simp [he])
  | hands g cb encoded hactive hidle hfree hanswers hcallbacks hwaiter =>
      have hinv' := hinv.step h
      have hs : s.promise g ≠ some .generating := by
        rw [Ne, ← hinv.active_iff, hidle]
        simp
      obtain ⟨he, cb, call, hover⟩ := step_hands_over hinv h hs ((hinv'.active_iff g).mp hactive)
      refine .prompt g cb call hover (answers_append hover.answered) hover.own.ne_nil ?_ ?_
      · intro g'
        rw [← hinv'.active_iff g', hactive, Option.some.injEq, eq_comm]
      · rw [List.mem_append, ← hes, hover.notStopping]
        simp [he]

theorem served_of_reachable (h : (requester contextSize).Reachable s) : Served s :=
  h.keeps .initial fun _ _ _ hserved hstep => hserved.step hstep

/-- **The hand-over protocol**, along every run. -/
theorem prompts_handed_over (hrun : (requester contextSize).run initial es = some s) :
    Protocol contextSize es s := by
  have hserved := served_of_reachable ⟨es, hrun⟩
  have hlist := hserved.served
  constructor
  · have hnodup : (s.answers.map Prod.fst ++ s.promptWaiter.toList).Nodup := by
      rw [hlist]
      exact List.nodup_range
    exact List.nodup_iff_count.mp (hnodup.sublist (List.sublist_append_left _ _))
  · intro cb hcb
    rw [← List.mem_range, ← hlist]
    exact List.mem_append_left _ hcb
  · intro es₁ e es₂ u v _ hbefore hstep
    refine answers_of_step (inv_of_reachable ⟨es₁, hbefore⟩) ?_ hstep
    rw [run_stopRequested hbefore]
    simp [initial]
  · intro hstop cb hcb
    have hrequested : s.stopRequested = true := (run_stopRequested hrun).mpr (.inr hstop)
    rw [hserved.unparked hrequested, Option.toList_none, List.append_nil] at hlist
    rw [hlist]
    exact List.mem_range.mpr hcb

/-- One prompt is refused while the other is being answered; `stop()` comes while C++ waits for the next. -/
def overlapping : List Event :=
  [.startup (.ok ()), .startup (.ok ()), .startup (.ok ()), .generate (some "é"), .generate (some "b"),
    .pendingPrompt, .resumeGenerate 0, .resumeGenerate 1, .pendingPrompt, .stop]

theorem prompts_handed_over_overlapping : ∃ s, Protocol 4096 overlapping s ∧
    s.answers = [(0, [0xC3, 0xA9]), (1, [])] ∧ s.promise 1 = some (.rejected "a generation is already running") :=
  ⟨_, prompts_handed_over rfl, by decide, by decide⟩

end LlmRuntime.Requester
